import NdimonR.Library.Effects
import NdimonR.Engine.Journal

/-! The device a network transaction runs on: its files, its authority, its clock, and the
answers of the programs and probes the engine calls. -/

namespace NdimonR.Engine

open Types

abbrev Files := String → Option Image

/-- What the proofs remember of a run. `wrote`, `table` and `activated` name the job whose journal
the engine was working on; `kept` and `released` are its writes to the releasing engine's markers. -/
inductive Event where
  | staged (job : Journal)
  | loaded (decision : Commit)
  | wrote (job path : String) (image : Option Image)
  | table (job : String) (rules : Option String)
  | activated (job : String) (profiles : NetworkProfiles)
  | decided (decision : Commit)
  | finished (job : Journal) (kept : Bool) (files : Files)
  | addresses (interface : String) (live : List String)
  | kept (owner : Ownership)
  | released (job : Journal) (files : Files)

/-- Whether an event mentions a job identity. -/
def Event.names (id : String) : Event → Bool
  | .staged j => j.jobId == id
  | .loaded c => c.transaction == some id
  | .wrote job _ _ => job == id
  | .table job _ => job == id
  | .activated job _ => job == id
  | .decided c => c.transaction == some id
  | .finished j _ _ => j.jobId == id
  | .addresses _ _ => false
  | .kept owner => owner.transaction == id
  | .released j _ => j.jobId == id

/-- The authority holds exactly the decision of this job, whatever other domains have committed
since. -/
def Commit.decides (c : Commit) (j : Journal) : Bool :=
  c.version == 1 && c.profiles == j.plan.candidate && c.metadata == j.plan.metadata &&
    c.transaction == some j.jobId && c.networkCommitRevision == some (j.base.revision + 1)

structure World where
  pending : Option Journal := none
  last : Option Last := none
  files : Files
  authority : Commit := {}
  quiesced : Bool := false
  externallyManaged : Bool := false
  peerQuiesce : Option String := none
  peerExternal : Option Ownership := none
  peerDone : List Ownership := []
  bootId : Nat := 0
  now : Nat := 0
  trace : List Event := []

namespace World

def note (e : Event) (w : World) : World := { w with trace := e :: w.trace }

def knows (w : World) (id : String) : Bool :=
  w.authority.transaction == some id || w.trace.any (Event.names id)

/-- Time passes, and other domains commit: only the global revision moves. -/
def pass (elapsed writes : Nat) (w : World) : World :=
  { w with
    now := w.now + elapsed
    authority := { w.authority with revision := w.authority.revision + writes } }

def putPending (j : Journal) (w : World) : World :=
  if w.pending.isNone && j.phase == .staged then
    { w with pending := some j, trace := .staged j :: w.trace }
  else { w with pending := some j }

def removePending (w : World) : World :=
  match w.pending with
  | none => w
  | some j =>
    { w with
      pending := none
      trace := .finished j (w.authority.decides j) w.files :: w.trace }

def putLast (l : Last) (w : World) : World := { w with last := some l }

def writeFile (path : String) (image : Option Image) (w : World) : World :=
  { w with files := fun p => if p = path then image else w.files p }

/-- NetworkManager saves the profiles it owns in its own time. -/
def saveKeyfiles (saved : List (String × Option Image)) (w : World) : World :=
  { w with files := fun p => if isKeyfile p then (saved.lookup p).getD (w.files p) else w.files p }

def decide (c : Commit) (w : World) : World :=
  { w with authority := c, trace := .decided c :: w.trace }

end World

/-- How one effect of the outside goes: it may fail or the machine may stop, before the effect is
durable or after it. -/
inductive Fault where
  | none
  | fail (error : ApiError)
  | failAfter (error : ApiError)
  | crash
  | crashAfter
  deriving DecidableEq

/-- One answer of the outside. Every call draws the next one, and reads the fields it needs. -/
structure Answer where
  fault : Fault := .none
  elapsed : Nat := 0
  writes : Nat := 0
  flag : Bool := false
  text : String := ""
  texts : List String := []
  table : Option String := none
  address : Ipv4Addr := ⟨0, 0, 0, 0⟩
  profiles : NetworkProfiles := {}
  metadata : Metadata := {}
  rendered : List (String × Option Image) := []
  images : List (Option Image) := []
  nm : List NmChange := []
  drift : List Foreign := []
  document : Document := ⟨{}, [], ""⟩

/-- The world, the answers still to come, and the journal the running operation holds. -/
structure Frame where
  world : World
  script : List Answer
  job : Journal

abbrev Action := Proc Frame ApiError

def Frame.next (f : Frame) : Answer × Frame :=
  match f.script with
  | [] => ({}, f)
  | a :: rest => (a, { f with script := rest, world := f.world.pass a.elapsed a.writes })

def effect {α : Type} (change : Answer → Frame → World) (view : Answer → Frame → α) : Action α :=
  fun f =>
    let (a, f) := f.next
    match a.fault with
    | .none => (.ok (view a f), { f with world := change a f })
    | .fail e => (.err e, f)
    | .failAfter e => (.err e, { f with world := change a f })
    | .crash => (.crash, f)
    | .crashAfter => (.crash, { f with world := change a f })

/-- A call that changes nothing the engine depends on. -/
def ask {α : Type} (view : Answer → World → α) : Action α :=
  effect (fun _ f => f.world) fun a f => view a f.world

def act (change : Answer → Frame → World) : Action Unit := effect change fun _ _ => ()

def job : Action Journal := Proc.read (·.job)

def setJob (change : Journal → Journal) : Action Unit :=
  Proc.modify fun f => { f with job := change f.job }

/-! ## Clock, store and files -/

def bootId : Action Nat := ask fun _ w => w.bootId

def nowMs : Action Nat := ask fun _ w => w.now

/-- A host whose commands share a deadline; a command past it fails. -/
def budget : Action Unit := ask fun _ _ => ()

/-- An identity the device has not seen: one it has is an entropy failure. -/
def randomId : Action String := do
  let (id, known) ← ask fun a w => (a.text, w.knows a.text)
  Proc.require (validId id && !known) (failed "random" "entropy_unavailable")
  pure id

def readPending : Action (Option Journal) := ask fun _ w => w.pending

def writePending : Action Unit := act fun _ f => f.world.putPending f.job

def removePending : Action Unit := act fun _ f => f.world.removePending

def readLast : Action (Option Last) := ask fun _ w => w.last

def writeLast (phase : Phase) (applyError : Option ApiError) : Action Unit :=
  act fun _ f => f.world.putLast ⟨f.job.token, phase, applyError⟩

def snapshot (path : String) : Action (Option Image) := ask fun _ w => w.files path

def fileExists (path : String) : Action Bool := do return (← snapshot path).isSome

def replace (path : String) (image : Option Image) : Action Unit :=
  act fun _ f => (f.world.writeFile path image).note (.wrote f.job.jobId path image)

/-! ## The authority -/

def load : Action Commit :=
  effect (fun _ f => f.world.note (.loaded f.world.authority)) fun _ f => f.world.authority

def validDecision (expected replacement : Commit) : Bool :=
  replacement.version == 1 && replacement.revision == expected.revision + 1 &&
    expected.revision < u64Max && replacement.revision ≤ 9007199254740991 &&
    replacement.networkCommitRevision == some replacement.revision &&
    replacement.transaction.any validId

/-- One replacement of the state envelope under the decision lock. A refusal by the check of the
whole envelope is a failure before the effect. -/
def compareAndCommit (expected replacement : Commit) : Action Unit := fun f =>
  let (a, f) := f.next
  match a.fault with
  | .fail e => (.err e, f)
  | .crash => (.crash, f)
  | fault =>
    if f.world.authority ≠ expected then
      (.err (.revisionConflict f.world.authority.revision), f)
    else if !validDecision expected replacement then
      (.err (failed "authority" "invalid_network_decision"), f)
    else
      let f := { f with world := f.world.decide replacement }
      match fault with
      | .failAfter e => (.err e, f)
      | .crashAfter => (.crash, f)
      | _ => (.ok (), f)

/-! ## Commands -/

def command (_program : String) (_args : List String) : Action Unit := ask fun _ _ => ()

def active (_unit : String) : Action Bool := ask fun a _ => a.flag

def table (_name : String) : Action (Option String) := ask fun a _ => a.table

/-- Loads a ruleset for a job, or the boot guard for none. -/
def nft (owner : Option String) (rules : Option String) : Action Unit :=
  act fun _ f =>
    match owner with
    | some id => f.world.note (.table id rules)
    | none => f.world

def setTable (owner : Option String) (rules : Option String) : Action Unit := do
  let present ← table "ndimon_management"
  Proc.when (present.isSome || rules.isSome) (nft owner rules)

def slices : Action Unit := do
  command "systemctl" ["daemon-reload"]
  command "systemctl" ["start", "ndimonndi.slice", "ndimontessera.slice"]

def media : List String := ["tesserad.service", "ndimon-finder.service", "ndimon-r.service"]

def stopConsumer (plan : Plan) (recovery : Bool) (unit : String) : Action Unit :=
  Proc.when (recovery || plan.affectedServices.contains unit) do
    let running ← active unit
    Proc.when running (command "systemctl" ["stop", unit])

def stopConsumers (plan : Plan) (recovery : Bool) : Action Unit :=
  Proc.each (stopConsumer plan recovery) media

def restoreConsumer (plan : Plan) (recovery : Bool) (unit : String) : Action Unit :=
  Proc.when ((recovery || plan.affectedServices.contains unit) && plan.activeServices.contains unit)
    (command "systemctl" ["start", unit])

def restoreConsumers (plan : Plan) (recovery : Bool) : Action Unit := do
  command "systemctl" ["daemon-reload"]
  Proc.each (restoreConsumer plan recovery) media

def resumeConsumer (plan : Plan) (unit : String) : Action Unit :=
  Proc.when (plan.activeServices.contains unit) do
    let running ← Proc.attempt (active unit)
    Proc.when (running.toOption ≠ some true)
      (Proc.ignore (command "systemctl" ["start", "--no-block", unit]))

/-- Every unit is tried; both callers drop the first error the source returns. -/
def resumeConsumers (plan : Plan) : Action Unit := do
  Proc.ignore (command "systemctl" ["daemon-reload"])
  Proc.each (resumeConsumer plan) media

def deconfigure (_p : NetworkProfiles) (_force : Bool) : Action Unit := ask fun _ _ => ()

/-- NetworkManager reloads its profiles, and saves some of them again. -/
def nmReload : Action Unit := act fun a f => f.world.saveKeyfiles a.rendered

def bringUp (p : NetworkProfiles) : Action Unit :=
  act fun _ f => f.world.note (.activated f.job.jobId p)

/-- Brings a configuration up; NetworkManager saves the profiles it activates. -/
def activate (p : NetworkProfiles) : Action Unit := do
  bringUp p
  Proc.when (p.backend = some .networkmanager) nmReload

def readiness (_p : NetworkProfiles) (_metadata : Metadata) (_recovery _owned : Bool) :
    Action Ipv4Addr :=
  ask fun a _ => a.address

def arp (_p : NetworkProfiles) : Action Unit := ask fun _ _ => ()

def ownershipProbe : Action Unit := ask fun _ _ => ()

def soleAddress : List String → Option Ipv4Addr
  | [text] => Ipv4Addr.parse text
  | _ => none

/-- The global addresses the interface carries now. -/
def liveAddresses (interface : String) : Action (List String) :=
  effect (fun a f => f.world.note (.addresses interface a.texts)) fun a _ => a.texts

def managementAddress (p : NetworkProfiles) : Action (Option Ipv4Addr) := do
  let n ← Proc.ofExcept (assigned p p.roles.management)
  let live ← liveAddresses (ifname p n)
  pure (soleAddress live)

def settleFiles : List NmFile → List (Option Image) → List NmFile × List (Option Image)
  | [], images => ([], images)
  | file :: rest, images =>
    let (settled, images') := settleFiles rest images.tail
    ({ file with before := images.head?.join } :: settled, images')

def settleChanges : List NmChange → List (Option Image) → List NmChange
  | [], _ => []
  | change :: rest, images =>
    let (files, images) := settleFiles change.files images
    { change with files } :: settleChanges rest images

/-- Some profile file under Netplan's directory existed before the change. -/
def writtenBack (nm : List NmChange) : Bool :=
  nm.any fun c => c.files.any fun f =>
    (Text.stripPrefix "/etc/netplan/" f.path).isSome && f.before.isSome

def settledNmFiles (nm : List NmChange) : Action (List NmChange) := do
  nmReload
  let images ← ask fun a _ => a.images
  pure (settleChanges nm images)

/-- The before-images of the profile files, as NetworkManager leaves them after one reload. -/
def settleNmFiles (nm : List NmChange) : Action (List NmChange) :=
  if writtenBack nm then settledNmFiles nm else pure nm

def nmUuids : Action (List String) := ask fun a _ => a.texts

def pruneConnection (present : List String) (c : NmChange) : Action Unit :=
  Proc.when (present.contains c.uuid) (command "nmcli" ["connection", "delete", "uuid", c.uuid])

def pruneNm (plan : Plan) : Action Unit :=
  Proc.when (!plan.nm.isEmpty) do
    let present ← nmUuids
    Proc.each (pruneConnection present) (plan.nm.filter (·.removeAfterCommit))

/-- Best effort: the connections and links a failed change created. -/
def discardCreated (plan : Plan) : Action Unit := do
  Proc.when (plan.candidate.backend = some .networkmanager) (Proc.ignore nmReload)
  Proc.ignore (command "ip" ["link", "delete"])

/-! ## Plans -/

/-- A file is planned when its text differs from what is there; a path is planned once. -/
def addFile (files : List FileChange) (path : String) (after : Option Image) :
    Action (List FileChange) := do
  let before ← snapshot path
  if before = after then pure files
  else if files.any (·.path == path) then Proc.fail (failed "plan" "duplicate_artifact")
  else pure (files ++ [⟨path, before, after⟩])

def addFiles (files : List FileChange) : List (String × Option Image) → Action (List FileChange)
  | [] => pure files
  | (path, after) :: rest => do
    let files ← addFile files path after
    addFiles files rest

def addRendered (files : List FileChange) (path : String) : Action (List FileChange) := do
  let text ← ask fun a _ => a.text
  addFile files path (some (Image.ofText text 0o644))

def boundary : Image :=
  Image.ofText "[Unit]\nDescription=NDIMon network traffic boundary\n[Slice]\n" 0o644

/-- Only a device that has Tessera gets its binding and drop-in. -/
def tesseraFiles (files : List FileChange) (tessera : Bool) : Action (List FileChange) := do
  if tessera then
    let files ← addRendered files tesseraBindingPath
    addRendered files "/etc/systemd/system/tesserad.service.d/70-ndimon-network.conf"
  else pure files

def activeMedia : List String → Action (List String)
  | [] => pure []
  | unit :: rest => do
    let running ← active unit
    let others ← activeMedia rest
    pure (if running then unit :: others else others)

/-- The backend's own files and connections, and its drift. -/
def renderBackend (candidate : NetworkProfiles) :
    Action (List (String × Option Image) × List NmChange × List Foreign) :=
  match candidate.backend with
  | some .networkmanager => ask fun a _ => ([], a.nm, a.drift)
  | some _ => ask fun a _ => (a.rendered, [], a.drift)
  | none => Proc.fail (unsupported "unknown_backend")

/-- A consumer whose drop-in is planned is affected, even when its role has not moved. -/
def movedServices (files : List FileChange) (services : List String) : List String :=
  files.foldl (fun services c =>
    media.foldl (fun services unit =>
      if c.path == "/etc/systemd/system/" ++ unit ++ ".d/70-ndimon-network.conf" &&
          !services.contains unit then services ++ [unit] else services) services) services

def addModules (files : List FileChange) (candidate : NetworkProfiles) :
    Action (List FileChange) :=
  if candidate.networks.any (·.vlanId.isSome) then
    addFile files "/etc/modules-load.d/ndimon-8021q.conf" (some (Image.ofText "8021q\n" 0o644))
  else pure files

/-- The files every backend gets: slices, bindings, drop-ins and the banner. -/
def addCommon (files : List FileChange) (candidate : NetworkProfiles) (tessera : Bool) :
    Action (List FileChange) := do
  let files ← addModules files candidate
  let files ← addFile files "/etc/systemd/system/ndimonndi.slice" (some boundary)
  let files ← addFile files "/etc/systemd/system/ndimontessera.slice" (some boundary)
  let files ← addRendered files bindingPath
  let files ← addRendered files "/etc/systemd/system/ndimon-r.service.d/70-ndimon-network.conf"
  let files ← addRendered files "/etc/systemd/system/ndimon-finder.service.d/70-ndimon-network.conf"
  let files ← tesseraFiles files tessera
  let before ← snapshot banner
  pure (files ++ [⟨banner, before, some (Image.ofText
    "Pending network change — the new address will appear above\n" 0o644)⟩])

/-- `handoff` marks the host of a transfer, which holds both writers' locks. -/
def plan (handoff : Bool) (previous candidate : NetworkProfiles) (metadata : Metadata)
    (portalPort : Nat) : Action Plan := do
  Proc.when (!handoff) ownershipProbe
  command "probe" ["links", "arping", "cgroup", "listener"]
  let oldTable ← table "ndimon_management"
  let (rendered, nm, drift) ← renderBackend candidate
  let files ← addFiles [] rendered
  Proc.require (!drift.any (·.blocking)) (unsupported "foreign_connection")
  let tessera ← fileExists "/etc/tessera/config.d"
  let files ← addCommon files candidate tessera
  let activeServices ← activeMedia media
  let affected := affectedRoles previous candidate
  let services :=
    (if affected.contains "audio" && tessera then ["tesserad.service"] else []) ++
    (if affected.contains "ndi" then ["ndimon-finder.service", "ndimon-r.service"] else [])
  pure
    { files, nm, previous, candidate
      previousMetadata := metadata
      metadata, oldTable, activeServices
      affectedServices := movedServices files services
      portalPort, drift }

def checkFile (c : FileChange) : Action Unit := do
  let now ← snapshot c.path
  Proc.require (now = c.before) (failed "preflight" "configuration_changed")

def checkPlan (p : Plan) : Action Unit := do
  Proc.each checkFile p.files
  let now ← table "ndimon_management"
  Proc.require (now = p.oldTable) (failed "preflight" "guard_changed")
  command "probe" ["links", "drift", "listener"]

end NdimonR.Engine
