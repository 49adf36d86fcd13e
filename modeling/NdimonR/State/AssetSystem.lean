import NdimonR.Library.Steps
import NdimonR.State.AssetStore

/-! Control around its asset store: requests that upload images, the state files with the marker of
an unfinished commit, the actor that takes one command after another, and the root job that writes
network decisions while the actor does not hold the lock.

Each file is replaced as a whole. A process can end between any two writes, and a write can fail. -/

namespace NdimonR.State.AssetStore

open NdimonR.Types

/-- A state envelope. `R` is the rest of it, which nothing here reads. -/
structure StateFile (R : Type) where
  document : DesiredState
  rest : R
  deriving DecidableEq

variable {R Action : Type}

def StateFile.logo (f : StateFile R) : Option AssetRef := f.document.display.splash.logo

/-- The asset directory, `state.json`, `state.prev.json` and whether `state.pending` is there. -/
structure Disk (R : Type) where
  assets : Directory
  state : Option (StateFile R) := none
  previous : Option (StateFile R) := none
  pending : Bool := false

/-- The envelope that counts: the one before, as long as the marker is there. -/
def Disk.committed (d : Disk R) : Option (StateFile R) := if d.pending then d.previous else d.state

/-- What the actor holds while it commits. -/
structure Transaction (R : Type) where
  previous : StateFile R
  next : StateFile R
  collects : Bool

/-- How far the process has come. -/
inductive Phase (R : Type) where
  | down
  | starting (state : StateFile R)
  | idle (state : StateFile R)
  | booting (state : StateFile R)
  | admitted (t : Transaction R)
  | saved (t : Transaction R)
  | marked (t : Transaction R)
  | staged (t : Transaction R)
  | committed (t : Transaction R)
  | failing (t : Transaction R)
  | restored (t : Transaction R)

namespace Phase

def alive : Phase R → Bool
  | .down | .starting _ => false
  | _ => true

/-- Nobody in a transaction holds the decision lock. -/
def unlocked : Phase R → Bool
  | .down | .starting _ | .idle _ | .booting _ => true
  | _ => false

/-- The envelopes in memory. -/
def files : Phase R → List (StateFile R)
  | .down => []
  | .starting f | .idle f | .booting f => [f]
  | .admitted t | .saved t | .marked t | .staged t | .committed t | .failing t | .restored t =>
    [t.previous, t.next]

/-- The envelope whose document a collection keeps. -/
def collecting : Phase R → Option (StateFile R)
  | .booting f => some f
  | .committed t => some t.next
  | _ => none

/-- A transaction that is on the disk, behind the marker. -/
def staging : Phase R → Option (Transaction R)
  | .staged t => some t
  | _ => none

end Phase

/-- A command that waits for the actor, with what its request has uploaded for it. -/
structure Message where
  request : ℕ
  command : Command
  asset : Option AssetRef

structure System (R : Type) where
  disk : Disk R
  pins : String → ℕ := fun _ => 0
  /-- The stored assets that requests hold. -/
  held : List (ℕ × AssetRef) := []
  queue : List Message := []
  phase : Phase R := .down

inductive Act (R : Type) where
  /-- A request stores an image; the first so many files are written. -/
  | put (request : ℕ) (bytes : Bytes) (written : ℕ)
  | send (request : ℕ) (command : Command) (asset : Option AssetRef)
  /-- A request lets its asset go: it has returned, or its connection is closed. -/
  | release (request : ℕ) (asset : AssetRef)
  | crash
  -- start
  | start (imported : StateFile R)
  | importLegacy (bytes : Bytes) (written : ℕ)
  | migrate (presets : SortedMap String Preset) (rest : R)
  | initializeState
  | serve
  -- `load` and the root job
  | restorePrevious
  | unmark
  | refresh
  | decide (network : NetworkProfiles) (rest : R)
  -- turns of the actor
  | boot
  | refuse
  | record (rest : R)
  | submit (context : ℕ) (rest : R)
  | complete (plugins : SortedMap String PluginState) (rest : R)
  -- the transaction
  | reserve (rest : R)
  | save
  | mark
  | publish
  | accept (rest : R)
  | commit
  | commitUnsynced
  | fail
  | releaseReservation (rest : R)
  | putBack
  | unmarkBack
  | abandon
  /-- A collection, which may stop with an error after these files. -/
  | collect (gone : Option (String → Bool))

/-- What the model takes from outside: SHA-256, the reducers and the planners of the domains. -/
structure Env (Action : Type) where
  digest : Bytes → String
  reduce : DesiredState → Command → Except ApiError DesiredState
  planner : Planner Action

variable (env : Env Action)

namespace System

/-- The first so many files of an image. -/
def storeFiles (bytes : Bytes) (written : ℕ) (s : System R) :
    Option (AssetRef × Bool × System R) := do
  let (asset, files) ← (stored env.digest bytes).toOption
  let assets ← (s.disk.assets.writeAll (files.take written)).toOption
  return (asset, decide (files.length ≤ written), { s with disk.assets := assets })

def put (request : ℕ) (bytes : Bytes) (written : ℕ) (s : System R) : Option (System R) :=
  (s.storeFiles env bytes written).map fun (asset, whole, s) =>
    if whole then
      { s with
        pins := Function.update s.pins asset.sha256 (s.pins asset.sha256 + 1)
        held := (request, asset) :: s.held }
    else s

/-- The last pin of an asset goes with its count. -/
def releaseAsset (request : ℕ) (asset : AssetRef) (s : System R) : Option (System R) :=
  if (request, asset) ∈ s.held then some
    { s with
      pins := Function.update s.pins asset.sha256 (s.pins asset.sha256 - 1)
      held := s.held.erase (request, asset) }
  else none

/-- Only the files outlive the process. -/
def crash (s : System R) : System R := { disk := s.disk }

def importLegacy (bytes : Bytes) (written : ℕ) (f : StateFile R) (s : System R) :
    Option (System R) :=
  if f.logo = none then
    (s.storeFiles env bytes written).map fun (asset, whole, s) =>
      let f' := { f with document.display.splash.logo := some asset }
      if whole then { s with phase := .starting f' } else s
  else none

/-- An ordinary command with changes: planned, its assets validated, and its envelope made. -/
def submit (context : ℕ) (rest : R) (f : StateFile R) (s : System R) : Option (System R) :=
  match s.queue with
  | [] => none
  | m :: queue => do
    let next ← (env.reduce f.document m.command).toOption
    let p ← (plan env.planner { f.document with revision := context } next m.command).toOption
    if p.paths = [] then none
    else
      let next := { next with revision := f.document.revision + 1 }
      let assets ← if .display ∈ p.domains then
          (validateAssets env.digest next s.disk.assets).toOption
        else some s.disk.assets
      let t := { previous := f, next := { document := next, rest }, collects := true }
      return { s with
        disk.assets := assets
        queue
        phase := .admitted t }

def boot (f : StateFile R) (s : System R) : Option (System R) :=
  (validateAssets env.digest f.document s.disk.assets).toOption.map fun assets =>
    { s with
      disk.assets := assets
      phase := .booting f }

/-- The completion of a plugin job changes the plugins or nothing. -/
def complete (plugins : SortedMap String PluginState) (rest : R) (f : StateFile R) (s : System R) :
    System R :=
  let document :=
    { f.document with
      plugins
      revision := if plugins = f.document.plugins then f.document.revision
        else f.document.revision + 1 }
  let t := { previous := f, next := { document, rest }, collects := false }
  { s with phase := .admitted t }

def keep (f : StateFile R) (s : System R) : String → Bool :=
  keeps s.pins f.document (s.disk.previous.map StateFile.document)

def collectAssets (gone : Option (String → Bool)) (f : StateFile R) (s : System R) : System R :=
  { s with
    disk.assets := collect (s.keep f) (gone.getD fun _ => true) s.disk.assets
    phase := .idle f }

def writeState (f : StateFile R) (phase : Phase R) (s : System R) : System R :=
  { s with
    disk.state := some f
    phase }

variable [DecidableEq R]

/-- A turn of the actor begins with a refresh under the lock: what it holds is on the disk. -/
def refreshed (s : System R) : Option (StateFile R) :=
  match s.phase, s.disk.state with
  | .idle f, some g => if s.disk.pending = false ∧ f = g then some f else none
  | _, _ => none

def step (s : System R) : Act R → Option (System R)
  | .put request bytes written =>
    if s.phase.alive then s.put env request bytes written else none
  | .send request command asset =>
    if s.phase.alive ∧ ∀ a ∈ asset, (request, a) ∈ s.held then
      some { s with queue := s.queue ++ [⟨request, command, asset⟩] }
    else none
  | .release request asset => s.releaseAsset request asset
  | .crash => some s.crash
  | .start imported =>
    match s.phase, s.disk.state with
    | .down, some f => if s.disk.pending then none else some { s with phase := .starting f }
    | .down, none =>
      if s.disk.pending = false ∧ imported.logo = none then
        some { s with phase := .starting imported }
      else none
    | _, _ => none
  | .importLegacy bytes written =>
    match s.phase with
    | .starting f => s.importLegacy env bytes written f
    | _ => none
  | .migrate presets rest =>
    match s.phase with
    | .starting f =>
      let f' := { document := { f.document with presets }, rest }
      some { s with phase := .starting f' }
    | _ => none
  | .initializeState =>
    match s.phase with
    | .starting f => some (s.writeState f (.starting f))
    | _ => none
  | .serve =>
    match s.phase with
    | .starting f => some { s with phase := .idle f }
    | _ => none
  | .restorePrevious =>
    match s.disk.previous with
    | some f => if s.phase.unlocked && s.disk.pending then some (s.writeState f s.phase) else none
    | none => none
  | .unmark =>
    if s.phase.unlocked && s.disk.pending && s.disk.state = s.disk.previous then
      some { s with disk.pending := false }
    else none
  | .refresh =>
    match s.phase, s.disk.state with
    | .idle _, some f => if s.disk.pending then none else some { s with phase := .idle f }
    | _, _ => none
  | .decide network rest =>
    match s.disk.state with
    | some f =>
      let document :=
        { f.document with
          network
          revision := f.document.revision + 1 }
      if s.phase.unlocked && !s.disk.pending then some (s.writeState { document, rest } s.phase)
      else none
    | none => none
  | .boot => s.refreshed.bind fun f => s.boot env f
  | .refuse =>
    match s.phase, s.queue with
    | .idle _, _ :: queue => some { s with queue }
    | _, _ => none
  | .record rest => s.refreshed.map fun f => s.writeState { f with rest } (.idle { f with rest })
  | .submit context rest => s.refreshed.bind fun f => s.submit env context rest f
  | .complete plugins rest => s.refreshed.map fun f => s.complete plugins rest f
  | .reserve rest =>
    match s.phase with
    | .admitted t =>
      let previous := { t.previous with rest }
      some (s.writeState previous (.admitted { t with previous }))
    | _ => none
  | .save =>
    match s.phase with
    | .admitted t => some { s with
        disk.previous := some t.previous
        phase := .saved t }
    | _ => none
  | .mark =>
    match s.phase with
    | .saved t => some { s with
        disk.pending := true
        phase := .marked t }
    | _ => none
  | .publish =>
    match s.phase with
    | .marked t => some (s.writeState t.next (.staged t))
    | _ => none
  | .accept rest =>
    match s.phase with
    | .staged t =>
      let next := { t.next with rest }
      some (s.writeState next (.staged { t with next }))
    | _ => none
  | .commit =>
    match s.phase with
    | .staged t => some { s with
        disk.pending := false
        phase := if t.collects then .committed t else .idle t.next }
    | _ => none
  | .commitUnsynced =>
    match s.phase with
    | .staged t => some { s with
        disk.pending := false
        phase := .failing t }
    | _ => none
  | .fail =>
    match s.phase with
    | .admitted t | .saved t | .marked t | .staged t => some { s with phase := .failing t }
    | _ => none
  | .releaseReservation rest =>
    match s.phase with
    | .failing t =>
      let previous := { t.previous with rest }
      some (s.writeState previous (.failing { t with previous }))
    | _ => none
  | .putBack =>
    match s.phase with
    | .failing t => some (s.writeState t.previous (.restored t))
    | _ => none
  | .unmarkBack =>
    match s.phase with
    | .restored t => some { s with
        disk.pending := false
        phase := .idle t.previous }
    | _ => none
  | .abandon =>
    match s.phase with
    | .admitted t | .failing t | .restored t => some { s with phase := .idle t.previous }
    | _ => none
  | .collect gone =>
    match s.phase.collecting with
    | some f => some (s.collectAssets gone f)
    | none => none

end System

end NdimonR.State.AssetStore
