import NdimonR.Engine.Device

/-! Receiving the network from a releasing engine: its markers, the plan of the transfer, and the
release of this engine's own network. -/

namespace NdimonR.Engine

open Types

structure ReleaseStatus where
  externallyManaged : Bool
  quiesced : Bool
  deriving DecidableEq

def sourceLock (source : NetworkHandoff) : Action Unit := do
  Proc.require (source.product ≠ .ndimon) (unsupported "handoff_same_owner")
  Proc.require (validHandoffId source.id) (invalid "id" "invalid_handoff_id")
  command "flock" [source.id]

def lockSource : Option Transfer → Action Unit
  | none => pure ()
  | some t => sourceLock t.source

def ownership (t : Transfer) (job : String) : Ownership :=
  { id := t.source.id, receiver := .ndimon, transaction := job, documentSha256 := t.documentSha256 }

def peerExternal : Action (Option Ownership) := ask fun _ w => w.peerExternal

def peerQuiesce : Action (Option String) := ask fun _ w => w.peerQuiesce

def reserve (t : Transfer) : Action Unit :=
  act fun _ f => { f.world with peerExternal := some (ownership t f.job.jobId) }

def check (t : Transfer) (job : String) : Action Unit := do
  command "probe" ["document", "artifacts", t.document.nftablesTable]
  let quiesce ← peerQuiesce
  Proc.require (quiesce = some t.sourceQuiesce) (locked "handoff")
  let external ← peerExternal
  Proc.require (external = some (ownership t job)) (locked "handoff_commit")

def replaceTables (owner source : String) (target previous : Option String) : Action Unit := do
  let mine ← table "ndimon_management"
  let theirs ← table source
  Proc.when (mine.isSome || theirs.isSome || target.isSome || previous.isSome)
    (nft (some owner) target)

def releaseExternal : Action Unit :=
  act fun _ f => { f.world with peerExternal := none }.note (.released f.job f.world.files)

def releaseQuiesce : Action Unit :=
  act fun _ f => { f.world with peerQuiesce := none }.note (.released f.job f.world.files)

/-- Gives the network back to the releasing engine; only its own markers are touched. -/
def restored (t : Transfer) : Action Unit := do
  let external ← peerExternal
  Proc.when (external.any (·.id == t.source.id)) releaseExternal
  let quiesce ← peerQuiesce
  Proc.when (quiesce = some t.source.id) releaseQuiesce

def writeDone (o : Ownership) : Action Unit :=
  act fun _ f => { f.world with peerDone := o :: f.world.peerDone }.note (.kept o)

def kept (t : Transfer) (job : String) : Action Unit := do
  let external ← peerExternal
  Proc.require (external = some (ownership t job)) (locked "handoff_commit")
  writeDone (ownership t job)

def sourceReadiness (plan : Plan) : Action Unit := do
  let _ ← readiness plan.previous plan.previousMetadata true false
  command "probe" ["selected"]

/-! ## Release of this engine's network -/

def releaseStatus : Action ReleaseStatus :=
  ask fun _ w => ⟨w.externallyManaged, w.quiesced⟩

def archivePending : Action Unit := act fun _ f => { f.world with pending := none }

def archiveLast : Action Unit := act fun _ f => { f.world with last := none }

def removeQuiesce : Action Unit := act fun _ f => { f.world with quiesced := false }

/-- Finishes a release the receiver has kept: the journal files are archived with the decision. -/
def completeRelease : Action ReleaseStatus := do
  let status ← releaseStatus
  if status.externallyManaged && status.quiesced then do
    let _ ← load
    command "replace" ["decision.json"]
    archivePending
    archiveLast
    removeQuiesce
    pure { status with quiesced := false }
  else pure status

def writable : Action Unit := do
  let status ← releaseStatus
  Proc.require (!status.quiesced) (locked "handoff")
  Proc.require (!status.externallyManaged) (locked "external_owner")

/-! ## The plan of a transfer -/

def snapshotArtifact (a : Artifact) : Action FileChange := do
  let before ← snapshot a.path
  Proc.require before.isSome (.drift a.path)
  pure ⟨a.path, before, none⟩

def snapshots : List Artifact → Action (List FileChange)
  | [] => pure []
  | a :: rest => do
    let change ← snapshotArtifact a
    let changes ← snapshots rest
    pure (change :: changes)

def keyfile (owner name : String) : String :=
  "/etc/NetworkManager/system-connections/" ++ owner ++ "-vlan-" ++ name ++ ".nmconnection"

/-- The connection of one VLAN under this engine's name; its text comes from the source's. -/
def addKeyfile (sourceFiles : List FileChange) (metadata : Metadata) (files : List FileChange)
    (name : String) : Action (List FileChange) := do
  Proc.require (sourceFiles.any fun c => c.path == keyfile "tessera" name && c.before.isSome)
    (unsupported "incomplete_handoff_offer")
  let before ← snapshot (keyfile "ndimon" name)
  Proc.require (before = none) (locked "ndimon")
  Proc.require (metadata.nmOwned.contains name) (unsupported "missing_parent_connection")
  let text ← ask fun a _ => a.text
  pure (files ++ [⟨keyfile "ndimon" name, none, some (Image.ofText text 0o600)⟩])

def addKeyfiles (sourceFiles : List FileChange) (metadata : Metadata) (files : List FileChange) :
    List String → Action (List FileChange)
  | [] => pure files
  | name :: rest => do
    let files ← addKeyfile sourceFiles metadata files name
    addKeyfiles sourceFiles metadata files rest

def vlanNames (p : NetworkProfiles) : List String :=
  (p.networks.filter (·.vlanId.isSome)).map (ifname p)

def handoffImpact (token : String) : Impact :=
  { scope := .network
    restarts := [.tessera, .finder, .decoder]
    interruptions := media.map fun s => ⟨.network, s, some applyMs⟩
    lines := [
      "Transfer network ownership to NDIMon-R without changing addresses, VLANs or existing roles.",
      "Restart network consumers; Keep within 60 seconds after readiness or restore the releasing engine."]
    token }

structure HandoffPlan where
  impact : Impact
  base : Commit
  plan : Plan
  transfer : Transfer

/-- The token of the review is its seal over the plan; it comes with the answers. -/
def handoffPlan (config : EngineConfig) (source : NetworkHandoff) : Action HandoffPlan := do
  Proc.require (source.product ≠ .ndimon) (unsupported "handoff_same_owner")
  let pending ← readPending
  Proc.require (pending = none) (locked "pending_transaction")
  let release ← releaseStatus
  Proc.require (!(release.quiesced || release.externallyManaged)) (locked "handoff")
  let external ← peerExternal
  Proc.require (external = none) (locked "handoff_commit")
  let document ← ask fun a _ => a.document
  Proc.require (config.certified document.profiles) (unsupported "backend_not_certified")
  let base ← load
  let present ← table "ndimon_management"
  Proc.require (!(base.profiles.backend.isSome || present.isSome)) (locked "ndimon")
  let sourceFiles ← snapshots document.artifacts
  let metadata ← ask fun a _ => a.metadata
  let p ← plan true document.profiles document.profiles metadata 80
  let files ← addKeyfiles sourceFiles metadata p.files
    (if document.profiles.backend = some .networkmanager then vlanNames document.profiles else [])
  Proc.require (!files.any fun c => sourceFiles.any (·.path == c.path))
    (unsupported "unsafe_handoff_artifact")
  let sha256 ← ask fun a _ => a.text
  let sourceTable ← table document.nftablesTable
  let quiesce ← peerQuiesce
  Proc.require (quiesce = some source.id) (locked "handoff_not_prepared")
  Proc.require sourceTable.isSome (unsupported "handoff_guard_missing")
  let token ← ask fun a _ => a.text
  pure
    { impact := handoffImpact token
      base
      plan :=
        { p with
          files := files ++ sourceFiles
          affectedServices := media
          previousMetadata := metadata
          metadata := { metadata with handoff := some ⟨source, sha256⟩ } }
      transfer :=
        { source, document, documentSha256 := sha256, sourceTable, sourceQuiesce := source.id } }

end NdimonR.Engine
