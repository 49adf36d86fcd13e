import NdimonR.Types.Model
import NdimonR.Library.Ipv4

/-! Commands, impacts and errors as they cross the actor's boundary. -/

namespace NdimonR.Types

inductive Domain where
  | device
  | outputs
  | ndi
  | audio
  | network
  | tessera
  | display
  | presets
  | plugins
  deriving DecidableEq, Repr

inductive Origin where
  | ui (session : String)
  | cli (uid : Nat)
  | plugin (name : String)
  | tessera (peer : String)
  | boot
  | migration
  | discoveryServer
  deriving DecidableEq

def Origin.requiresConfirmation : Origin → Bool
  | .boot | .migration | .tessera _ | .discoveryServer => false
  | _ => true

structure DevicePatch where
  hostname : Option String := none
  ndiAlias : Option String := none
  mode : Option OperationMode := none
  decodeMode : Option DecodeMode := none
  watchdogMode : Option WatchdogMode := none
  ntpServer : Option String := none
  rebootSchedule : Option RebootSchedule := none
  about : Option About := none
  analogAudioInGain : Option Nat := none
  analogAudioOutGain : Option Nat := none
  pluginFeeds : Option (List String) := none
  allowInsecureFeeds : Option Bool := none
  webAllowedHosts : Option (List String) := none
  deriving DecidableEq

inductive Service where
  | decoder
  | finder
  | control
  | watchdog
  | tessera
  deriving DecidableEq, Repr

inductive ServiceAction where
  | start
  | stop
  | restart
  | reload
  deriving DecidableEq, Repr

inductive TesseraServiceAction where
  | start
  | stop
  | restart
  | reload
  deriving DecidableEq, Repr

inductive RestoreScope where
  | all
  | settings
  | sources
  | audio
  | network
  | display
  | plugins
  deriving DecidableEq, Repr

structure BackupDocument where
  document : DesiredState
  assets : List AssetRef := []
  legacySections : List String := []
  legacyFingerprint : String := ""
  deriving DecidableEq

inductive NetworkProduct where
  | ndimon
  | tessera
  deriving DecidableEq, Repr

structure NetworkHandoff where
  product : NetworkProduct
  id : String
  deriving DecidableEq

/-- Proof retained by the network decision after a kept handoff. -/
structure NetworkHandoffReceipt where
  source : NetworkHandoff
  documentSha256 : String
  deriving DecidableEq

/-- Connection context of the accepted socket; it has no request-body form. -/
structure NetworkSessionPath where
  peer : IpAddr
  «local» : IpAddr
  deriving DecidableEq

/-- Private adoption evidence, kept in the state envelope beside the document. -/
structure NetworkBackendMetadata where
  handoff : Option NetworkHandoffReceipt := none
  parentSource : String := ""
  parentDefinition : String := ""
  parentNonIp : Json.Value := .emptyObject
  sources : List String := []
  dhcpMetric : Nat := 1024
  staticMetric : Nat := 0
  nmParentUuid : Option String := none
  nmOwned : SortedMap String String := .empty
  deriving DecidableEq

inductive Command where
  | setDevice (patch : DevicePatch)
  | selectSource (output : OutputId) (source : NdiSourceRef)
  | forgetSource (output : OutputId)
  | reconnectSource (output : OutputId)
  | retrySource (output : OutputId) (source : NdiSourceRef)
  | adoptRemoteSource (output : OutputId) (source : Option NdiSourceRef)
  | putOutputSettings (outputs : SortedMap OutputId Output) (ndi : Option Ndi)
      (audioEnabled : SortedMap OutputId Bool)
  | setOutputAlias (output : OutputId) («alias» : String)
  | setOutputVideo (output : OutputId) (video : OutputVideo)
  | setScreenSaver (output : OutputId) (screensaver : ScreenSaver)
  | setNdi (ndi : Ndi)
  | refreshNdi
  | resetNdiDiscovery
  | captureFrame (output : OutputId)
  | setAudioEngine (engine : AudioEngine)
  | putAudio (audio : Audio)
  | putOutputAudio (output : OutputId) (audio : OutputAudio) (normalizeMatrix : Bool)
  | putAudioSource (id : String) (source : AudioSource)
  | putAudioSink (id : String) (sink : AudioSink)
  | removeAudioEndpoints (ids : List String)
  | stageNetwork (profiles : NetworkProfiles)
  | confirmNetwork (token : String)
  | revertNetwork (token : String)
  | rollbackNetwork
  | acceptNetworkRecovery
  | prepareNetworkHandoff
  | cancelNetworkHandoff (id : String)
  | importNetworkHandoff (source : NetworkHandoff)
  | commitNetworkHandoff (source : NetworkHandoff)
  | setTessera (tessera : Tessera)
  | tesseraService (action : TesseraServiceAction)
  | restoreTessera (tessera : Tessera) (audio : Audio)
  | putTesseraFlows (flows : List TesseraFlow)
  | setTesseraLabel (direction : Direction) (channel : Nat) (label : Option String)
  | setDisplay (display : Display)
  | previewSplash (sourceAvailable : Bool)
  | setLogo (asset : Option AssetRef)
  | savePreset (name : String) (preset : Preset)
  | recallPreset (name : String) (output : OutputId)
  | deletePreset (name : String)
  | importBackup (document : BackupDocument) (scope : RestoreScope)
  | undoRestore (snapshot : String)
  | installPlugin (name archive version : String) (enable force : Bool)
  | updatePlugin (name archive version : String) (enable force : Bool)
  | setPluginEnabled (name : String) (enabled : Bool) (version : Option String)
  | removePlugin (name : String) (purge force : Bool)
  | cancelPluginJob (job : String)
  | resetPluginState
  | setPluginData (name : String) (state : SortedMap String Json.Value)
  | pluginAction (name action : String) (fields : SortedMap String String)
  | serviceControl (service : Service) (action : ServiceAction)
  | reboot
  | restartStack
  | installUpdate (package : Option AssetRef) (version : Option String) (force : Bool)
  | reloadConfig
  deriving DecidableEq

structure CommandRequest where
  command : Command
  expectRevision : Option Nat := none
  expectImpact : Option String := none
  confirm : Bool := false
  networkSession : Option NetworkSessionPath := none
  expectActivity : Option Nat := none
  deriving DecidableEq

/-- Declared from the least to the most disruptive. -/
inductive ImpactScope where
  | none
  | output
  | service
  | device
  | network
  | system
  deriving DecidableEq, Repr

structure Interruption where
  domain : Domain
  target : String
  expectedDurationMs : Option Nat
  deriving DecidableEq

structure Impact where
  scope : ImpactScope := .none
  restarts : List Service := []
  interruptions : List Interruption := []
  lines : List String := []
  token : String := ""
  counterpart : Option Json.Value := none
  deriving DecidableEq

def Impact.describe (i : Impact) : String := String.intercalate "\n" i.lines

def Impact.needsConfirmation (i : Impact) : Bool := i.scope ≠ .none

structure FieldError where
  field : String
  reason : String
  deriving DecidableEq, Repr

inductive ApiError where
  | invalid (field reason : String) (errors : List FieldError)
  | locked (field : String) (by' : Option String)
  | confirmationRequired (impact : Impact)
  | revisionConflict (currentRevision : Nat)
  | drift (path : String)
  | notFound (what : String)
  | permissionDenied
  | rateLimited
  | unsupported (what : String)
  | applyFailed (domain : Domain) (step reason : String)
  | internal (message : String)
  | unauthorized
  | notPending
  | expired
  | stillApplying
  | tokenMismatch
  | wrongAddress
  deriving DecidableEq

/-- The name of a domain as its derived debug form prints it. -/
def Domain.debug : Domain → String
  | .device => "Device"
  | .outputs => "Outputs"
  | .ndi => "Ndi"
  | .audio => "Audio"
  | .network => "Network"
  | .tessera => "Tessera"
  | .display => "Display"
  | .presets => "Presets"
  | .plugins => "Plugins"

def ApiError.text : ApiError → String
  | .invalid field reason _ => s!"{field}: {reason}"
  | .locked field by' => s!"{field} is locked" ++ (by'.map (" by " ++ ·)).getD ""
  | .confirmationRequired impact => "Confirmation required: " ++ impact.describe
  | .revisionConflict currentRevision => s!"State changed (revision {currentRevision})"
  | .drift path => "Network handoff artifact changed: " ++ path
  | .notFound what => "Not found: " ++ what
  | .unsupported what => "Unsupported: " ++ what
  | .applyFailed domain step reason => domain.debug ++ s!" failed at {step}: {reason}"
  | .internal message => message
  | .permissionDenied => "Permission denied"
  | .rateLimited => "Too many requests"
  | .unauthorized => "Login required"
  | .notPending => "No network change is pending"
  | .expired => "Network confirmation expired; previous settings restored"
  | .stillApplying => "Network change is still applying"
  | .tokenMismatch => "Network confirmation token does not match"
  | .wrongAddress => "Confirm through the new management address"

/-- The first error leads; the rest stay in the list. -/
def ApiError.ofErrors (errors : List FieldError) : ApiError :=
  let first := errors.head?.getD ⟨"", "invalid value"⟩
  .invalid first.field first.reason errors

end NdimonR.Types
