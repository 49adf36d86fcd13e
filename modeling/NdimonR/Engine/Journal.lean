import NdimonR.Engine.Validation

/-! What the network engine keeps: the authority's decision, the plan of a change and the journal
of the one transaction that may be pending. -/

namespace NdimonR.Engine

open Types

def confirmMs : Nat := 60000
def applyMs : Nat := 90000
def guardMs : Nat := 180000
def u32Max : Nat := 2 ^ 32 - 1
def u64Max : Nat := 2 ^ 64 - 1
def banner : String := "/run/ndimon/net-pending"
def bindingPath : String := "/etc/ndimon-network-interfaces.json"
def tesseraBindingPath : String := "/etc/tessera/config.d/62-ndimon-network.toml"

def saturatingAdd (a b : Nat) : Nat := min (a + b) u64Max

def invalid (field reason : String) : ApiError := ApiError.ofErrors [⟨field, reason⟩]
def unsupported (what : String) : ApiError := .unsupported what
def failed (step reason : String) : ApiError := .applyFailed .network step reason
def locked (by' : String) : ApiError := .locked "network" (some by')

/-- Job identities and secrets: sixty-four lower-case hexadecimal digits. -/
def validId (s : String) : Bool :=
  Text.len s == 64 && Text.all (fun c => c.isDigit || ('a' ≤ c && c ≤ 'f')) s

/-- The identity of a handoff. -/
def validHandoffId (s : String) : Bool :=
  Text.len s == 32 && Text.all (fun c => c.isDigit || ('a' ≤ c && c ≤ 'f')) s

abbrev Metadata := NetworkBackendMetadata

structure Image where
  bytes : List UInt8
  mode : Nat
  uid : Nat := 0
  gid : Nat := 0
  deriving DecidableEq

/-- An image the engine writes itself: it runs as root. -/
def Image.ofText (text : String) (mode : Nat) : Image := { bytes := text.toUTF8.toList, mode }

structure FileChange where
  path : String
  before : Option Image
  after : Option Image
  deriving DecidableEq

/-- One file of a Netplan-owned profile, and what it held before. -/
structure NmFile where
  path : String
  before : Option Image
  deriving DecidableEq

structure NmChange where
  uuid : String
  interface : String
  tag : Option Nat
  removeAfterCommit : Bool
  files : List NmFile
  deriving DecidableEq

structure Foreign where
  what : String
  blocking : Bool
  deriving DecidableEq

structure Plan where
  files : List FileChange
  nm : List NmChange
  previous : NetworkProfiles
  candidate : NetworkProfiles
  previousMetadata : Metadata
  metadata : Metadata
  oldTable : Option String
  activeServices : List String
  affectedServices : List String
  portalPort : Nat
  drift : List Foreign
  deriving DecidableEq

/-- The authority's network decision with the global revision it was read at. -/
structure Commit where
  version : Nat := 1
  revision : Nat := 0
  profiles : NetworkProfiles := {}
  metadata : Metadata := {}
  transaction : Option String := none
  networkCommitRevision : Option Nat := none
  deriving DecidableEq

inductive Phase where
  | staged
  | applying
  | applied
  | confirmed
  | reverting
  | reverted
  | expired
  | failed
  deriving DecidableEq, Repr

inductive Operation where
  | network
  | handoff
  | syncTessera
  deriving DecidableEq, Repr

structure Artifact where
  path : String
  sha256 : String
  deriving DecidableEq

/-- The releasing engine's offer. -/
structure Document where
  profiles : NetworkProfiles
  artifacts : List Artifact
  nftablesTable : String
  deriving DecidableEq

/-- The reservation a receiver leaves with the releasing engine, and later its `.done` record. -/
structure Ownership where
  id : String
  receiver : NetworkProduct
  transaction : String
  documentSha256 : String
  deriving DecidableEq

structure Transfer where
  source : NetworkHandoff
  document : Document
  documentSha256 : String
  sourceTable : Option String
  sourceQuiesce : String
  deriving DecidableEq

structure Journal where
  version : Nat := 1
  operation : Operation
  jobId : String
  token : String
  base : Commit
  plan : Plan
  phase : Phase
  bootId : Nat
  deadlineMs : Nat
  appliedMs : Option Nat := none
  managementAddress : Option Ipv4Addr := none
  recoveryPending : Bool := false
  outcome : Phase := .expired
  applyError : Option ApiError := none
  recoveryError : Option ApiError := none
  session : Option NetworkSessionPath := none
  timerGeneration : Nat := 0
  handoff : Option Transfer := none
  handoffRestored : Bool := false
  mediaRunning : Bool := false
  deriving DecidableEq

structure Last where
  token : String
  phase : Phase
  applyError : Option ApiError
  deriving DecidableEq

/-- The public view of a pending change. -/
structure Pending where
  revision : Nat
  phase : Phase
  jobId : String
  remainingSeconds : Nat
  confirmPolicy : ConfirmPolicy
  managementAddress : Option Ipv4Addr
  managementPort : Nat
  recoveryPending : Bool
  applyError : Option ApiError
  recoveryError : Option ApiError
  deriving DecidableEq

structure Preview where
  profiles : NetworkProfiles
  unchanged : Bool
  affectedRoles : List String
  removedNetworks : List String
  interruptions : List String
  confirmPolicy : ConfirmPolicy
  confirmSeconds : Nat
  drift : List Foreign
  changedPaths : List String
  writable : Bool
  deriving DecidableEq

structure Stage where
  unchanged : Bool
  pending : Option Pending
  token : Option String
  deriving DecidableEq

structure Unrestored where
  path : String
  reason : String
  deriving DecidableEq

/-- What `acceptCurrent` gave up. -/
structure Accepted where
  applyError : Option ApiError
  recoveryError : Option ApiError
  unrestored : List Unrestored
  deriving DecidableEq

structure EngineConfig where
  certifiedBackends : List NetworkBackend
  selectedInterface : Option String
  deriving DecidableEq

def EngineConfig.certified (config : EngineConfig) (p : NetworkProfiles) : Bool :=
  p.backend.any config.certifiedBackends.contains

def runtime (path : String) : Bool :=
  path == bindingPath || path == tesseraBindingPath || path == banner ||
    Text.endsWithText "70-ndimon-network.conf" path

def isSlice (path : String) : Bool := Text.endsWithText ".slice" path

def isKeyfile (path : String) : Bool := Text.endsWithText ".nmconnection" path

/-- The files a recovery restores while the candidate's guards are still in place. -/
def Journal.firstPass (j : Journal) : List FileChange :=
  j.plan.files.reverse.filter fun c =>
    !runtime c.path && (j.handoff.isSome || !isSlice c.path)

/-- The files it restores once the previous table is back. -/
def Journal.secondPass (j : Journal) : List FileChange :=
  j.plan.files.reverse.filter fun c => runtime c.path || isSlice c.path

def Journal.keyfiles (j : Journal) : List FileChange :=
  j.plan.files.reverse.filter fun c => isKeyfile c.path

def affectedRoles (old new : NetworkProfiles) : List String :=
  ([("management", old.roles.management, new.roles.management),
    ("ndi", old.roles.ndi, new.roles.ndi),
    ("audio", old.roles.audio, new.roles.audio)].filter fun (_, a, b) =>
      a ≠ b || old.networks.find? (·.id == a) ≠ new.networks.find? (·.id == b)).map (·.1)

def nextCommit (j : Journal) : Except ApiError Commit :=
  if j.base.revision < u64Max then
    .ok
      { revision := j.base.revision + 1
        profiles := j.plan.candidate
        metadata := j.plan.metadata
        transaction := some j.jobId
        networkCommitRevision := some (j.base.revision + 1) }
  else .error (invalid "network.revision" "revision_overflow")

def recoveryFailure (j : Journal) : ApiError :=
  failed "recover" ((j.recoveryError.map ApiError.text).getD "recovery_pending")

def firewall (p : NetworkProfiles) (port : Nat) : Except ApiError String := do
  let management := ifname p (← assigned p p.roles.management)
  let all := String.intercalate ", " (p.networks.map fun n => "\"" ++ ifname p n ++ "\"")
  let ndi := ifname p (← assigned p p.roles.ndi)
  let audio := ifname p (← assigned p p.roles.audio)
  let rule (slice direction name : String) :=
    " socket cgroupv2 level 1 \"" ++ slice ++ "\" " ++ direction ++ " != \x7b \"lo\", \"" ++ name ++
      "\" \x7d counter reject;\n"
  let media (chain hook direction : String) :=
    " chain " ++ chain ++ " \x7b\n type filter hook " ++ hook ++ " priority 0; policy accept;\n" ++
      rule "ndimonndi.slice" direction ndi ++ rule "ndimontessera.slice" direction audio ++ " \x7d\n"
  .ok <|
    "table inet ndimon_management \x7b\n chain input \x7b\n type filter hook input priority -5; " ++
    "policy accept;\n iifname != \x7b \"lo\", \"" ++ management ++ "\" \x7d tcp dport " ++
    toString port ++ " reject;\n \x7d\n chain forward \x7b\n type filter hook forward priority -5; " ++
    "policy accept;\n iifname \x7b " ++ all ++ " \x7d reject;\n oifname \x7b " ++ all ++
    " \x7d reject;\n \x7d\n" ++ media "media_output" "output" "oifname" ++
    media "media_input" "input" "iifname" ++ "\x7d\n"

end NdimonR.Engine
