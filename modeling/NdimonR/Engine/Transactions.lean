import NdimonR.Engine.Handoff

/-! The network transaction: stage, apply, confirm, revert and recover, with one authoritative
decision. Each procedure holds the store's lock, so no two of them run together. -/

namespace NdimonR.Engine

open Types

/-- Whether the authority has taken the decision of this journal. -/
def committed (j : Journal) : Action Bool :=
  if j.operation = .syncTessera then pure (j.phase == .confirmed)
  else do
    let actual ← load
    let expected ← Proc.ofExcept (nextCommit j)
    pure (expected.revision ≤ actual.revision &&
      actual == { expected with revision := actual.revision })

/-- Another boot, or past the deadline. -/
def deadlinePassed (j : Journal) : Action Bool := do
  let boot ← bootId
  if j.bootId ≠ boot then pure true
  else do
    let now ← nowMs
    pure (j.deadlineMs ≤ now)

/-! ## Timers -/

def schedule (kind : String) (_delayMs : Nat) (_repeated : Bool) : Action Unit := do
  let j ← job
  command "systemd-run" ["ndimon-network-" ++ kind ++ "-" ++ j.jobId]

def armWindow : Action Unit := do
  let j ← job
  Proc.require (j.timerGeneration < u32Max) (failed "timer" "generation_overflow")
  setJob fun j => { j with timerGeneration := j.timerGeneration + 1 }
  writePending
  let now ← nowMs
  schedule "window" (j.deadlineMs - now) true

def armRetry : Action Unit := do
  let j ← job
  let running ← active ("ndimon-network-retry-" ++ j.jobId ++ ".timer")
  Proc.when (!running) (schedule "retry" 10000 true)

def stopTimer (timer : String) : Action Unit :=
  Proc.ignore (command "systemctl" ["stop", "--no-block", timer])

def stopTimers : Action Unit := do
  let j ← job
  Proc.each (fun kind => stopTimer ("ndimon-network-" ++ kind ++ "-" ++ j.jobId ++ ".timer"))
    ["apply", "guard", "retry"]
  Proc.each (fun n =>
    stopTimer ("ndimon-network-window-" ++ j.jobId ++ "-" ++ toString (n + 1) ++ ".timer"))
    (List.range j.timerGeneration)

/-! ## The two ways a journal ends -/

def endJournal (phase : Phase) : Action Unit := do
  let j ← job
  writeLast phase j.applyError
  removePending
  stopTimers

def restoreHandoff : Option Transfer → Action Unit
  | none => pure ()
  | some t => restored t

def keepHandoff (id : String) : Option Transfer → Action Unit
  | none => pure ()
  | some t => kept t id

def finishUnmodified (outcome : Phase) : Action Unit := do
  let j ← job
  restoreHandoff j.handoff
  endJournal outcome

def finishCommitted : Action Unit := do
  let j ← job
  keepHandoff j.jobId j.handoff
  pruneNm j.plan
  Proc.when (j.operation = .network ∨ j.operation = .handoff) (replace banner none)
  endJournal .confirmed

/-! ## Recovery -/

def restore (c : FileChange) : Action Unit := replace c.path c.before

/-- The old addressing is verified before the old table is loaded. -/
def restoreTables (j : Journal) : Action Unit :=
  match j.handoff with
  | some t => do
    sourceReadiness j.plan
    command "systemctl" ["daemon-reload"]
    command "systemctl" ["start", "tesseraaudio.slice"]
    replaceTables j.jobId t.document.nftablesTable j.plan.oldTable t.sourceTable
  | none => do
    let _ ← readiness j.plan.previous j.plan.previousMetadata true j.base.profiles.backend.isSome
    setTable (some j.jobId) j.plan.oldTable

/-- What a recovery does to the files, the tables and the addressing. -/
def restoreNetwork (j : Journal) : Action Unit := do
  Proc.when (!j.mediaRunning) (stopConsumers j.plan true)
  Proc.when (j.plan.candidate.backend = some .ifupdown) (deconfigure j.plan.candidate true)
  Proc.when j.plan.oldTable.isSome slices
  Proc.each restore j.firstPass
  Proc.when (j.handoff.isSome ∧ j.plan.previous.backend = some .networkmanager) nmReload
  activate j.plan.previous
  restoreTables j
  Proc.each restore j.secondPass
  Proc.when (j.plan.previous.backend = some .networkmanager ∧ j.handoff.isSome)
    (Proc.each restore j.keyfiles)
  Proc.when j.mediaRunning (stopConsumers j.plan true)
  restoreConsumers j.plan true

/-- After the marker of the releasing engine is gone only this cleanup is retried. -/
def releaseSource (handoff : Option Transfer) : Action Unit :=
  match handoff with
  | none => pure ()
  | some t => do
    setJob fun j => { j with handoffRestored := true }
    writePending
    restored t

def syncRecovery (j : Journal) (outcome : Phase) : Action Unit := do
  Proc.each restore j.plan.files.reverse
  command "systemctl" ["daemon-reload"]
  finishUnmodified outcome

def recoverBody (outcome : Phase) : Action Unit := do
  armRetry
  budget
  let j ← job
  if j.operation = .syncTessera then syncRecovery j outcome
  else do
    restoreNetwork j
    writeLast outcome j.applyError
    releaseSource j.handoff
    removePending
    stopTimers

/-- The failure path of a recovery: the media run again, and the journal says why it stays. -/
def recoverFailed (e : ApiError) : Action Unit := do
  let j ← job
  Proc.when (!j.handoffRestored) do
    Proc.ignore (resumeConsumers j.plan)
    setJob fun j => { j with mediaRunning := true }
  setJob fun j =>
    { j with phase := .failed, recoveryError := some e, recoveryPending := true }
  writePending
  let j ← job
  Proc.fail (recoveryFailure j)

def recoverModified (outcome : Phase) : Action Unit := do
  setJob fun j => { j with phase := .reverting, recoveryPending := true, outcome }
  writePending
  let result ← Proc.attempt (recoverBody outcome)
  match result with
  | .ok () => pure ()
  | .error e => recoverFailed e

def recoverLocked (outcome : Phase) : Action Unit := do
  let j ← job
  if ← committed j then finishCommitted
  else if j.phase = .staged ∨ j.handoffRestored then finishUnmodified outcome
  else recoverModified outcome

/-! ## Staging -/

def idle : Action Unit := do
  writable
  let pending ← readPending
  Proc.require (pending = none) (locked "pending_transaction")

/-- The committed network, or the network that would be adopted. -/
def current : Action Commit := do
  let c ← load
  Proc.require (c.version = 1) (invalid "network.version" "invalid_version_revision")
  if c.profiles.backend.isNone then do
    let pending ← readPending
    match pending with
    | some j => pure { c with profiles := j.plan.previous, metadata := j.plan.previousMetadata }
    | none =>
      let (profiles, metadata) ← ask fun a _ => (a.profiles, a.metadata)
      pure { c with profiles, metadata }
  else do
    let _ ← Proc.ofExcept (validate c.profiles c.profiles)
    pure c

/-- Connections a plan creates are owned, and those it removes are not, once it is committed. -/
def reserveConnections (metadata : Metadata) (nm : List NmChange) : Metadata :=
  nm.foldl (fun m c =>
    let m := if c.tag.isSome && !c.removeAfterCommit
      then { m with nmOwned := m.nmOwned.insert c.interface c.uuid } else m
    if c.removeAfterCommit then { m with nmOwned := m.nmOwned.erase c.interface } else m) metadata

def previewOf (config : EngineConfig) (old p : NetworkProfiles) : Preview :=
  { profiles := p
    unchanged := p = old
    affectedRoles := affectedRoles old p
    removedNetworks := (old.networks.filter fun n => !p.networks.any (·.id == n.id)).map (·.id)
    interruptions := []
    confirmPolicy := p.confirmPolicy
    confirmSeconds := 60
    drift := []
    changedPaths := []
    writable := config.certified p }

def prepare (config : EngineConfig) (candidate : NetworkProfiles) (revision : Nat) :
    Action (Preview × Option Plan) := do
  idle
  let old ← current
  Proc.require (revision = old.revision) (.revisionConflict old.revision)
  let p ← Proc.ofExcept (validate candidate old.profiles)
  let preview := previewOf config old.profiles p
  if preview.unchanged then pure (preview, none)
  else do
    Proc.require (revision < u64Max) (invalid "network.revision" "revision_overflow")
    let made ← plan false old.profiles p old.metadata 80
    pure (
      { preview with
        interruptions := made.affectedServices
        drift := made.drift
        changedPaths := made.files.map (·.path) },
      some { made with metadata := reserveConnections made.metadata made.nm })

def pendingOf (j : Journal) (remaining : Nat) : Pending :=
  { revision := saturatingAdd j.base.revision 1
    phase := j.phase
    jobId := j.jobId
    remainingSeconds := (remaining + 999) / 1000
    confirmPolicy := j.plan.candidate.confirmPolicy
    managementAddress := j.managementAddress
    managementPort := j.plan.portalPort
    recoveryPending := j.recoveryPending
    applyError := j.applyError
    recoveryError := j.recoveryError }

def remainingMs (j : Journal) : Action Nat := do
  let boot ← bootId
  if boot = j.bootId then do
    let now ← nowMs
    pure (j.deadlineMs - now)
  else pure 0

def pendingView : Action Pending := do
  let j ← job
  let remaining ← remainingMs j
  command "clock" ["realtime"]
  pure (pendingOf j remaining)

def reserveSource : Option Transfer → Action Unit
  | none => pure ()
  | some t => reserve t

/-- What follows the durable journal: the reservation, then the guard timer before the apply
timer. -/
def armTransaction (handoff : Option Transfer) : Action Unit := do
  reserveSource handoff
  schedule "guard" 180000 true
  schedule "apply" 3000 false

def stageTransaction (base : Commit) (plan : Plan) (session : Option NetworkSessionPath)
    (handoff : Option Transfer) : Action Stage := do
  let token ← randomId
  let jobId ← randomId
  let boot ← bootId
  let now ← nowMs
  setJob fun _ =>
    { operation := if handoff.isSome then .handoff else .network
      jobId, token, base, plan
      phase := .staged
      bootId := boot
      deadlineMs := saturatingAdd now guardMs
      session, handoff }
  writePending
  let armed ← Proc.attempt (armTransaction handoff)
  match armed with
  | .error e => do
    finishUnmodified .failed
    Proc.fail e
  | .ok () => do
    let pending ← pendingView
    pure { unchanged := false, pending := some pending, token := some token }

def unchangedStage : Stage := { unchanged := true, pending := none, token := none }

/-- The part of `stage` that holds the store's lock. -/
def stageLocked (config : EngineConfig) (candidate : NetworkProfiles) (expectRevision : Nat)
    (session : Option NetworkSessionPath) : Action Stage := do
  let (preview, plan) ← prepare config candidate expectRevision
  if preview.unchanged then pure unchangedStage
  else
    match plan with
    | none => Proc.fail (failed "stage" "missing_plan")
    | some plan => do
      let base ← load
      Proc.require (base.revision = expectRevision) (.revisionConflict base.revision)
      stageTransaction base plan session none

def stage (config : EngineConfig) (candidate : NetworkProfiles) (expectRevision : Nat)
    (session : Option NetworkSessionPath) : Action Stage := do
  let (preview, _) ← prepare config candidate expectRevision
  if preview.unchanged then pure unchangedStage
  else do
    Proc.require preview.writable (unsupported "backend_not_certified")
    let booted ← active "ndimon-net-boot.service"
    Proc.when (!booted) (command "systemctl" ["start", "ndimon-net-boot.service"])
    stageLocked config candidate expectRevision session

def commitHandoff (config : EngineConfig) (source : NetworkHandoff) (expectImpact : String)
    (session : Option NetworkSessionPath) : Action Stage := do
  sourceLock source
  let made ← handoffPlan config source
  Proc.require (made.impact.token = expectImpact) (.confirmationRequired made.impact)
  stageTransaction made.base made.plan session (some made.transfer)

/-! ## The decision -/

def matchesSecret (secret value : String) : Bool := Text.len value == 64 && secret == value

/-- Reads the journal this token belongs to into the running operation. -/
def matching (token : String) : Action Unit := do
  Proc.require (validId token) (invalid "token" "invalid_token")
  let pending ← readPending
  match pending with
  | none => do
    let last ← readLast
    Proc.require (!last.any fun l => l.phase == .expired && matchesSecret l.token token) .expired
    Proc.fail .notPending
  | some j => do
    Proc.require (matchesSecret j.token token) .tokenMismatch
    setJob fun _ => j

/-- The local address a request came over: an IPv4 address, never the loopback's. -/
def requestAddress (address : Option IpAddr) : Option Ipv4Addr :=
  (address.bind mapped).filter fun a => !a.isLoopback

/-- Under `requireManagementAddress`: the request came over the recorded address, and that address
is the only one the management interface carries now. -/
def checkAddress (j : Journal) (address : Option IpAddr) : Action Unit := do
  let requested := requestAddress address
  Proc.require (requested.isSome ∧ requested = j.managementAddress) .wrongAddress
  let current ← managementAddress j.plan.candidate
  Proc.require (requested = current) .wrongAddress

/-- The commit itself: an error that left the decision durable is a success. -/
def decide (j : Journal) : Action Commit := do
  let next ← Proc.ofExcept (nextCommit j)
  let result ← Proc.attempt (compareAndCommit j.base next)
  match result with
  | .ok () => pure next
  | .error e => do
    let done ← committed j
    Proc.require done e
    pure next

def expire : Action Commit := do
  recoverLocked .expired
  Proc.fail .expired

def confirmMatched (localAddress : Option IpAddr) : Action Commit := do
  let j ← job
  lockSource j.handoff
  if ← committed j then do
    finishCommitted
    Proc.fail .notPending
  else do
    Proc.require (!j.recoveryPending) (recoveryFailure j)
    if ← deadlinePassed j then expire
    else do
      Proc.require (j.phase = .applied) .stillApplying
      Proc.when (j.plan.candidate.confirmPolicy = .requireManagementAddress)
        (checkAddress j localAddress)
      let next ← decide j
      setJob fun j => { j with phase := .confirmed }
      Proc.ignore writePending
      Proc.ignore finishCommitted
      pure next

def confirm (token : String) (localAddress : Option IpAddr) : Action Commit := do
  matching token
  confirmMatched localAddress

def revert (token : String) : Action Unit := do
  matching token
  let j ← job
  lockSource j.handoff
  if ← committed j then do
    finishCommitted
    Proc.fail .notPending
  else recoverLocked .reverted

def rollback : Action Unit := do
  let pending ← readPending
  match pending with
  | none => pure ()
  | some j => do
    setJob fun _ => j
    lockSource j.handoff
    recoverLocked .reverted

/-! ## The operator's way out -/

/-- Best effort: what could not be put back is told. -/
def noted (path : String) (p : Action Unit) : Action (List Unrestored) := do
  let result ← Proc.attempt p
  match result with
  | .ok () => pure []
  | .error e => pure [⟨path, e.text⟩]

def restoreNoted : List FileChange → Action (List Unrestored)
  | [] => pure []
  | c :: rest => do
    let first ← noted c.path (restore c)
    let others ← restoreNoted rest
    pure (first ++ others)

def acceptFailed (j : Journal) : Action Accepted := do
  budget
  Proc.ignore (stopConsumers j.plan true)
  Proc.when j.plan.oldTable.isSome (Proc.ignore slices)
  let first ← restoreNoted
    (j.plan.files.reverse.filter fun c => !runtime c.path && !isSlice c.path)
  let guards ← noted "nftables table ndimon_management" (setTable (some j.jobId) j.plan.oldTable)
  let second ← restoreNoted j.secondPass
  discardCreated j.plan
  Proc.ignore (resumeConsumers j.plan)
  writeLast .failed (j.recoveryError.or j.applyError)
  removePending
  stopTimers
  pure ⟨j.applyError, j.recoveryError, first ++ guards ++ second⟩

def acceptCurrent : Action Accepted := do
  let pending ← readPending
  match pending with
  | none => Proc.fail .notPending
  | some j => do
    setJob fun _ => j
    Proc.require (j.handoff = none) (unsupported "handoff_recovery_cannot_be_accepted")
    if ← committed j then do
      finishCommitted
      Proc.fail .notPending
    else do
      Proc.require (j.recoveryPending ∧ j.phase = .failed) (locked "recovery_not_failed")
      acceptFailed j

/-! ## The apply job -/

def install (c : FileChange) : Action Unit := replace c.path c.after

def removeArtifact (a : Artifact) : Action Unit := replace a.path none

def checkHandoff (j : Journal) : Action Unit :=
  match j.handoff with
  | none => pure ()
  | some t => check t j.jobId

/-- Everything that is checked while the journal still says nothing has changed. -/
def preflight (config : EngineConfig) (j : Journal) : Action Unit := do
  Proc.when (j.handoff = none) ownershipProbe
  let actual ← load
  if actual ≠ j.base then do
    let again ← load
    Proc.fail (.revisionConflict again.revision)
  else do
    Proc.require (config.certified j.plan.candidate) (unsupported "backend_not_certified")
    checkHandoff j
    checkPlan j.plan

/-- The journal holds the settled before-images before anything changes. -/
def settle : Action Unit := do
  let j ← job
  if j.handoff = none then do
    let nm ← settleNmFiles j.plan.nm
    if nm ≠ j.plan.nm then do
      setJob fun j => { j with plan := { j.plan with nm } }
      writePending
    else pure ()
  else pure ()

def installGuards (j : Journal) (rules : String) : Action Unit :=
  match j.handoff with
  | some t => replaceTables j.jobId t.document.nftablesTable (some rules) none
  | none => setTable (some j.jobId) (some rules)

def removeArtifacts (j : Journal) : Action Unit :=
  match j.handoff with
  | some t => Proc.each removeArtifact t.document.artifacts
  | none => pure ()

/-- Slices first, then the guards, then the backend's files, then the public bindings. -/
def applyNetwork (j : Journal) : Action Ipv4Addr := do
  stopConsumers j.plan false
  Proc.when (j.plan.candidate.networks.any (·.vlanId.isSome)) (command "modprobe" ["8021q"])
  Proc.each install (j.plan.files.filter fun c => isSlice c.path)
  slices
  let rules ← Proc.ofExcept (firewall j.plan.candidate j.plan.portalPort)
  let usable ← Proc.attempt (command "nft" ["--check", "-f", "-"])
  Proc.require usable.isOk (unsupported "guard_unavailable")
  installGuards j rules
  Proc.when (j.plan.candidate.backend = some .ifupdown) (deconfigure j.plan.previous false)
  Proc.each install (j.plan.files.filter fun c => !isSlice c.path && !runtime c.path)
  Proc.when (j.handoff.isSome ∧ j.plan.candidate.backend = some .networkmanager) nmReload
  activate j.plan.candidate
  removeArtifacts j
  let address ← readiness j.plan.candidate j.plan.metadata false true
  arp j.plan.candidate
  Proc.each install (j.plan.files.filter fun c => runtime c.path)
  pure address

def bannerImage (address : Ipv4Addr) : Image :=
  Image.ofText ("Pending network change: http://" ++ address.text ++ "/\n") 0o644

def setBanner (image : Image) : List FileChange → List FileChange
  | [] => []
  | c :: rest =>
    if c.path = banner then { c with after := some image } :: rest
    else c :: setBanner image rest

/-- Publishes the address, then the phase; the guard timer stays armed throughout. -/
def publish (address : Ipv4Addr) : Action Unit := do
  let j ← job
  Proc.require (j.plan.files.any (·.path == banner)) (failed "publish" "missing_banner_snapshot")
  setJob fun j =>
    { j with plan := { j.plan with files := setBanner (bannerImage address) j.plan.files } }
  writePending
  replace banner (some (bannerImage address))
  let j ← job
  restoreConsumers j.plan false
  setJob fun j => { j with managementAddress := some address, phase := .applied }
  let now ← nowMs
  setJob fun j =>
    { j with appliedMs := some now, deadlineMs := saturatingAdd now confirmMs }
  writePending
  armWindow

def applyBody (config : EngineConfig) : Action Unit := do
  let j ← job
  preflight config j
  setJob fun j => { j with phase := .applying }
  writePending
  budget
  settle
  let j ← job
  let address ← applyNetwork j
  publish address

/-- A held decision lock leaves the journal to the timer's next try. -/
def retryable (j : Journal) : ApiError → Bool
  | .locked _ (some by') => j.phase == .staged && by' == "state_transaction"
  | _ => false

def applyFailed (e : ApiError) : Action Unit := do
  let j ← job
  if retryable j e then Proc.fail e
  else do
    setJob fun j => { j with applyError := some e, outcome := .failed }
    if j.phase = .staged then do
      finishUnmodified .failed
      Proc.fail e
    else do
      writePending
      recoverLocked .failed
      Proc.fail e

def applyStaged (config : EngineConfig) : Action Unit := do
  let result ← Proc.attempt (applyBody config)
  match result with
  | .ok () => pure ()
  | .error e => applyFailed e

def applyMatched (config : EngineConfig) : Action Unit := do
  let j ← job
  lockSource j.handoff
  if ← committed j then finishCommitted
  else do
    if ← deadlinePassed j then recoverLocked .expired
    else if j.phase ≠ .staged then pure ()
    else applyStaged config

/-- Runs the continuation on the pending journal if it is this job's. -/
def forJob (jobId : String) (p : Action Unit) : Action Unit := do
  Proc.require (validId jobId) (invalid "job_id" "invalid_job_id")
  let pending ← readPending
  match pending with
  | none => pure ()
  | some j =>
    if j.jobId ≠ jobId then pure ()
    else do
      setJob fun _ => j
      p

def runApplyJob (config : EngineConfig) (jobId : String) : Action Unit :=
  forJob jobId (applyMatched config)

/-! ## Timers and boot -/

def recoverMatched : Action Unit := do
  let j ← job
  lockSource j.handoff
  if ← committed j then finishCommitted
  else do
    let late ← deadlinePassed j
    if !late && !j.recoveryPending then armWindow
    else recoverLocked (if j.recoveryPending then j.outcome else .expired)

def runRecovery (jobId : String) : Action Unit := forJob jobId recoverMatched

/-- The committed network's guards, best effort. -/
def guardsIgnored (c : Commit) : Action Unit :=
  Proc.when c.profiles.backend.isSome do
    Proc.ignore slices
    match firewall c.profiles 80 with
    | .ok rules => Proc.ignore (setTable none (some rules))
    | .error _ => pure ()

def bootGuards (c : Commit) : Action Unit := do
  slices
  let rules ← Proc.ofExcept (firewall c.profiles 80)
  setTable none (some rules)

/-- The boot of an engine that has prepared a release: it still owns the network, unless the
receiver has reserved it. -/
def bootQuiesced : Action Unit := do
  let reserved ← ask fun a _ => a.flag
  Proc.when (!reserved) do
    let c ← load
    Proc.when c.profiles.backend.isSome (bootGuards c)

def bootCommitted : Action (Option String) := do
  let c ← load
  Proc.when c.profiles.backend.isSome do
    ownershipProbe
    bootGuards c
  pure none

/-- A recovery that failed is reported, and its journal stays; any other error fails the job. -/
def bootPending : Action (Option String) := do
  let j ← job
  lockSource j.handoff
  let result ← Proc.attempt (recoverLocked .expired)
  match result with
  | .ok () => bootCommitted
  | .error e => do
    let j ← job
    Proc.require (j.recoveryPending ∧ j.phase = .failed) e
    let c ← load
    guardsIgnored c
    pure (some ("recovery_pending: " ++ e.text))

def boot : Action (Option String) := do
  let release ← completeRelease
  if release.externallyManaged then pure none
  else if release.quiesced then do
    bootQuiesced
    pure none
  else do
    let pending ← readPending
    match pending with
    | none => bootCommitted
    | some j => do
      setJob fun _ => j
      bootPending

end NdimonR.Engine
