import NdimonR.Types.EncodeFaithful

/-! Planning: which sections a command changes, what to do about each, and the sealed impact the
operator confirms. -/

namespace NdimonR.State

open NdimonR.Types

def domainName : Domain → String
  | .device => "device"
  | .outputs => "outputs"
  | .ndi => "ndi"
  | .audio => "audio"
  | .network => "network"
  | .tessera => "tessera"
  | .display => "display"
  | .presets => "presets"
  | .plugins => "plugins"

/-- Tessera reloads before the audio consumers on apply and rollback. -/
def registry : List Domain :=
  [.network, .tessera, .audio, .device, .outputs, .ndi, .display, .presets, .plugins]

/-- Backups that span several domains. -/
def handles : Command → Bool
  | .importBackup _ .all | .importBackup _ .settings | .importBackup _ .sources => true
  | _ => false

def restoreRank : Domain → Nat
  | .audio => 0
  | .outputs => 1
  | .ndi => 2
  | .display => 3
  | .device => 4
  | .presets => 5
  | .tessera => 6
  | .plugins => 7
  | .network => 8

/-- A restore plans in the dependency order of the legacy restore. -/
def planningOrder (command : Command) : List Domain :=
  if handles command then registry.insertionSort (fun a b => restoreRank a ≤ restoreRank b)
  else registry

def owns : Domain → Command → Bool
  | .audio, .putAudio _ | .audio, .setAudioEngine _ | .audio, .putAudioSource _ _
  | .audio, .putAudioSink _ _ | .audio, .removeAudioEndpoints _ | .audio, .putOutputAudio _ _ _
  | .audio, .importBackup _ .audio => true
  | .device, .setDevice _ | .device, .reboot | .device, .restartStack
  | .device, .installUpdate _ _ _ | .device, .serviceControl _ _ => true
  | .outputs, .selectSource _ _ | .outputs, .forgetSource _ | .outputs, .adoptRemoteSource _ _
  | .outputs, .reconnectSource _ | .outputs, .retrySource _ _ | .outputs, .putOutputSettings _ _ _
  | .outputs, .setOutputAlias _ _ | .outputs, .setOutputVideo _ _ | .outputs, .setScreenSaver _ _
  | .outputs, .captureFrame _ => true
  | .ndi, .setNdi _ | .ndi, .refreshNdi | .ndi, .resetNdiDiscovery => true
  | .network, .stageNetwork _ | .network, .confirmNetwork _ | .network, .revertNetwork _
  | .network, .rollbackNetwork | .network, .acceptNetworkRecovery
  | .network, .prepareNetworkHandoff | .network, .cancelNetworkHandoff _
  | .network, .importNetworkHandoff _ | .network, .commitNetworkHandoff _ => true
  | .tessera, .tesseraService _ | .tessera, .restoreTessera _ _ | .tessera, .setTessera _
  | .tessera, .putTesseraFlows _ | .tessera, .setTesseraLabel _ _ _ => true
  | .display, .setDisplay _ | .display, .previewSplash _ | .display, .setLogo _
  | .display, .importBackup _ .display => true
  | .presets, .savePreset _ _ | .presets, .deletePreset _ => true
  | .plugins, .installPlugin _ _ _ _ _ | .plugins, .updatePlugin _ _ _ _ _
  | .plugins, .setPluginEnabled _ _ _ | .plugins, .removePlugin _ _ _
  | .plugins, .cancelPluginJob _ | .plugins, .resetPluginState | .plugins, .setPluginData _ _ =>
    true
  | _, _ => false

def commandRoutes : List Domain :=
  [.audio, .device, .outputs, .ndi, .network, .tessera, .display, .presets, .plugins]

def commandDomain (command : Command) : Option Domain :=
  commandRoutes.find? fun domain => owns domain command

/-- Runtime-only operations that need no change of their section. -/
def imperative : Domain → Command → Bool
  | .network, .stageNetwork _ | .network, .confirmNetwork _ | .network, .revertNetwork _
  | .network, .rollbackNetwork | .network, .acceptNetworkRecovery
  | .network, .prepareNetworkHandoff | .network, .cancelNetworkHandoff _
  | .network, .importNetworkHandoff _ | .network, .commitNetworkHandoff _ => true
  | .ndi, .refreshNdi | .ndi, .resetNdiDiscovery => true
  | .tessera, .tesseraService _ => true
  | .outputs, .reconnectSource _ | .outputs, .retrySource _ _ | .outputs, .selectSource _ _
  | .outputs, .forgetSource _ | .outputs, .setOutputVideo _ _ => true
  | .device, .reboot | .device, .restartStack | .device, .installUpdate _ _ _
  | .device, .serviceControl _ _ => true
  | .plugins, _ => true
  | _, _ => false

def externalConfirmation : Domain → Command → Bool
  | .network, _ => true
  | .tessera, .tesseraService .start | .tessera, .tesseraService .stop
  | .tessera, .tesseraService .restart => false
  | .tessera, command => !handles command
  | _, _ => false

structure DomainPlan (Action : Type) where
  actions : List Action := []
  impact : Impact := {}

structure Plan (Action : Type) where
  paths : List String
  domains : List Domain
  actions : List Action
  impact : Impact
  /-- Confirmation forwarded to a counterpart after its files are staged. -/
  confirmation : Option (Option String) := none
  externalConfirmation : Bool
  session : Option NetworkSessionPath := none

def ImpactScope.rank : ImpactScope → Nat
  | .none => 0
  | .output => 1
  | .service => 2
  | .device => 3
  | .network => 4
  | .system => 5

def ImpactScope.max (a b : ImpactScope) : ImpactScope :=
  if ImpactScope.rank a ≤ ImpactScope.rank b then b else a

/-- Appends what is not there yet. -/
def union {α : Type} [DecidableEq α] (l more : List α) : List α :=
  more.foldl (fun l x => if x ∈ l then l else l ++ [x]) l

def mergeImpact (impact contribution : Impact) : Impact :=
  { impact with
    scope := ImpactScope.max impact.scope contribution.scope
    restarts := union impact.restarts contribution.restarts
    interruptions := union impact.interruptions contribution.interruptions
    lines := impact.lines ++ contribution.lines }

/-- The paths at which two values differ. A missing member is read as null. -/
def diff (path : String) (a b : Json) : List String :=
  if a = b then []
  else
    match a, b with
    | .obj xs, .obj ys =>
      (SortedMap.ofList ((xs ++ ys).map fun e => (e.1, ()))).keys.flatMap fun key =>
        diff s!"{path}.{key}" (Json.member key (.obj xs)) (Json.member key (.obj ys))
    | _, _ => [path]
termination_by sizeOf a
decreasing_by exact Json.sizeOf_member_lt _ _

example : diff "plugins" (.obj [("a", .obj [("b", .null)])]) (.obj [("a", .obj [("b", .int 1)])]) =
    ["plugins.a.b"] := by decide +kernel

/-- What the libraries and the domain modules contribute to planning. -/
structure Planner (Action : Type) where
  /-- The planner of each registered module. -/
  plan : Domain → DesiredState → DesiredState → Command → Except ApiError (DomainPlan Action)
  /-- The compact text of an action list. -/
  actionsText : List Action → String
  /-- The compact text of one interruption. -/
  interruptionText : Interruption → String
  /-- The digest of what the operator confirms, as a token. -/
  digest : Command → ImpactScope → List Service → List String → List String → String

def Service.rank : Service → Nat
  | .decoder => 0
  | .finder => 1
  | .control => 2
  | .watchdog => 3
  | .tessera => 4

def Service.sorted (services : List Service) : List Service :=
  ((SortedMap.ofList (services.map fun s => (Service.rank s, s))).values)

/-- Presentation lines and list order do not matter; command and context do. -/
def sealed {Action : Type} (planner : Planner Action) (impact : Impact) (command : Command)
    (context : List String) : Impact :=
  let interruptions := (SortedMap.ofList
    (impact.interruptions.map fun i => (planner.interruptionText i, ()))).keys
  { impact with
    token := planner.digest command impact.scope (Service.sorted impact.restarts) interruptions
      context }

/-- The impact of the network part of a legacy restore. -/
def legacyNetworkImpact : Impact where
  scope := .network
  restarts := [.decoder, .finder, .tessera]
  interruptions :=
    [⟨.network, "ndimon-r.service", some 90000⟩, ⟨.network, "ndimon-finder.service", some 90000⟩,
      ⟨.network, "tesserad.service", some 90000⟩]
  lines :=
    ["Restart the decoder to use the changed network.",
      "Restart NDI source discovery to use the changed network.",
      "Restart Tessera network audio to use the changed network.",
      "Apply the network settings. Keep them within 60 seconds after they are active, or the previous settings are restored."]

/-- Effects of legacy sections that never enter the document. -/
def operationImpact : Command → Impact
  | .importBackup document _ =>
    let decoder : Impact :=
      if document.legacySections.any (fun s =>
          ["outputs", "discovery", "transport", "display", "device", "identity"].contains s) then
        { scope := .service
          restarts := [.decoder]
          interruptions := [⟨.outputs, "decoder video/audio", some 3000⟩]
          lines :=
            ["Restart the decoder to restore followed settings; video and audio pause briefly"] }
      else {}
    let plugins : Impact :=
      if document.legacySections.contains "plugins" then
        { decoder with
          scope := ImpactScope.max decoder.scope .service
          interruptions :=
            decoder.interruptions ++ [⟨.plugins, "plugin services and audio routing", none⟩]
          lines := decoder.lines ++
            ["Run plugin restore hooks, which can restart plugin services and replace audio routing"] }
      else decoder
    if document.legacySections.contains "network" then mergeImpact plugins legacyNetworkImpact
    else plugins
  | _ => {}

def operationContext (previous : DesiredState) (command : Command) : List String :=
  if handles command then [s!"backup_revision_context:{previous.revision}"] else []

/-- What the loop over the registered domains collects. -/
structure Collected (Action : Type) where
  paths : List String := []
  domains : List Domain := []
  actions : List Action := []
  impact : Impact := {}

def sectionDiff (previous next : DesiredState) (domain : Domain) : List String :=
  diff (domainName domain) ((desiredStateJson previous).val.member (domainName domain))
    ((desiredStateJson next).val.member (domainName domain))

/-- A domain takes part when its section changed or the command runs it directly. -/
def involved (previous next : DesiredState) (command : Command) (domain : Domain) : Bool :=
  !(sectionDiff previous next domain).isEmpty ||
    (commandDomain command == some domain && imperative domain command)

def collect {Action : Type} (planner : Planner Action) (previous next : DesiredState)
    (command : Command) (acc : Collected Action) (domain : Domain) :
    Except ApiError (Collected Action) :=
  let paths := acc.paths ++ sectionDiff previous next domain
  if involved previous next command domain then
    match planner.plan domain previous next command with
    | .error e => .error e
    | .ok contribution => .ok
        { paths := paths
          domains := acc.domains ++ [domain]
          actions := acc.actions ++ contribution.actions
          impact := mergeImpact acc.impact contribution.impact }
  else .ok { acc with paths := paths }

def collectAll {Action : Type} (planner : Planner Action) (previous next : DesiredState)
    (command : Command) : Collected Action → List Domain → Except ApiError (Collected Action)
  | acc, [] => .ok acc
  | acc, domain :: rest =>
    match collect planner previous next command acc domain with
    | .error e => .error e
    | .ok acc => collectAll planner previous next command acc rest

def revisionContext (previous : DesiredState) (command : Command) : List String :=
  match commandDomain command with
  | some domain => [s!"{domainName domain}_revision_context:{previous.revision}"]
  | none => []

def plan {Action : Type} (planner : Planner Action) (previous next : DesiredState)
    (command : Command) : Except ApiError (Plan Action) :=
  match collectAll planner previous next command {} (planningOrder command) with
  | .error e => .error e
  | .ok acc =>
    let context := acc.paths ++ operationContext previous command ++
      revisionContext previous command ++ [planner.actionsText acc.actions]
    .ok
      { paths := acc.paths
        domains := acc.domains
        actions := acc.actions
        impact := sealed planner (mergeImpact acc.impact (operationImpact command)) command context
        externalConfirmation := acc.domains.any fun domain => externalConfirmation domain command }

end NdimonR.State
