import NdimonR.State.InPlay
import NdimonR.State.PlanDetects

/-! The revisions of an envelope, one for the whole and one for each domain, which commands name to
say what they were made for. Commands, completed plugin jobs and decisions of the root job each
count them on by hand; a domain that a command does not change keeps its own. -/

namespace NdimonR.State.AssetStore

open NdimonR.Types

instance : Fintype Domain where
  elems := {.device, .outputs, .ndi, .audio, .network, .tessera, .display, .presets, .plugins}
  complete d := by cases d <;> decide

/-- `2 ^ 53 - 1`, the last revision. -/
def maxRevision : ℕ := 9007199254740991

/-- An envelope beside its document. `O` is what no revision depends on: legacy texts, the job and
the results of plugins, the backend of the network. -/
structure Metadata (O : Type) where
  revision : ℕ
  domainRevisions : Domain → ℕ
  networkCommitRevision : Option ℕ := none
  others : O
  deriving DecidableEq

namespace Metadata

variable {O : Type}

/-- `StateFile::new`. -/
def new (revision : ℕ) (others : O) : Metadata O where
  revision
  domainRevisions _ := revision
  others

/-- The metadata of the next revision, which is that of these domains too. -/
def advance (m : Metadata O) (domains : List Domain) (others : O) : Option (Metadata O) :=
  if m.revision + 1 ≤ maxRevision then some
    { revision := m.revision + 1
      domainRevisions := fun d => if d ∈ domains then m.revision + 1 else m.domainRevisions d
      networkCommitRevision := m.networkCommitRevision
      others }
  else none

/-- A decision is a revision of the network that is known as such. -/
def decide (m : Metadata O) (others : O) : Option (Metadata O) :=
  (m.advance [.network] others).map fun next =>
    { next with networkCommitRevision := some next.revision }

end Metadata

variable {O Action : Type} (env : Env Action)

/-- What `StateFile::check` asks of an envelope beside the document's own rules. -/
structure StateFile.Checked (f : StateFile (Metadata O)) : Prop where
  document : f.document.revision = f.rest.revision
  domains : ∀ d, f.rest.domainRevisions d ≤ f.rest.revision
  network : ∀ r ∈ f.rest.networkCommitRevision, r ≤ f.rest.revision

structure StateFile.Numbered (f : StateFile (Metadata O)) : Prop extends f.Checked where
  limit : f.rest.revision ≤ maxRevision

section
variable [DecidableEq O]

/-- The metadata that the code computes for the acts of the actor and of the root job. -/
def Act.envelope (s : System (Metadata O)) : Act O → Option (Act (Metadata O))
  | .put request bytes written => some (.put request bytes written)
  | .send request command asset => some (.send request command asset)
  | .release request asset => some (.release request asset)
  | .crash => some .crash
  | .start imported => some (.start
      { document := { imported.document with revision := 0 }
        rest := .new 0 imported.rest })
  | .importLegacy bytes written => some (.importLegacy bytes written)
  | .migrate presets others =>
    match s.phase with
    | .starting f => some (.migrate presets { f.rest with others })
    | _ => none
  | .initializeState => some .initializeState
  | .serve => some .serve
  | .restorePrevious => some .restorePrevious
  | .unmark => some .unmark
  | .refresh => some .refresh
  | .decide network others =>
    s.disk.state.bind fun f => (f.rest.decide others).map (.decide network)
  | .boot => some .boot
  | .refuse => some .refuse
  | .record others => s.refreshed.map fun f => .record { f.rest with others }
  | .submit context others =>
    match s.refreshed, s.queue with
    | some f, m :: _ => do
      let next ← (env.reduce f.document m.command).toOption
      let p ← (plan env.planner { f.document with revision := context } next m.command).toOption
      return .submit context (← f.rest.advance p.domains others)
    | _, _ => none
  | .complete plugins others => s.refreshed.bind fun f =>
    (if plugins = f.document.plugins then some { f.rest with others }
      else f.rest.advance [.plugins] others).map (.complete plugins)
  | .reserve others =>
    match s.phase with
    | .admitted t => some (.reserve { t.previous.rest with others })
    | _ => none
  | .save => some .save
  | .mark => some .mark
  | .publish => some .publish
  | .accept others =>
    match s.phase with
    | .staged t => some (.accept { t.next.rest with others })
    | _ => none
  | .commit => some .commit
  | .commitUnsynced => some .commitUnsynced
  | .fail => some .fail
  | .releaseReservation others =>
    match s.phase with
    | .failing t => some (.releaseReservation { t.previous.rest with others })
    | _ => none
  | .putBack => some .putBack
  | .unmarkBack => some .unmarkBack
  | .abandon => some .abandon
  | .collect gone => some (.collect gone)

namespace Calling

def envelope (c : Calling (Metadata O)) : Move O → Option (Move (Metadata O))
  | .act a => (a.envelope env c.system).map .act
  | .call others => c.system.refreshed.map fun f => .call { f.rest with others }
  | .answered => some .answered
  | .refused none => some (.refused none)
  | .refused (some others) => c.call.map fun f => .refused (some { f.rest with others })

/-- A step with the metadata that the code computes. -/
def stepEnvelope (c : Calling (Metadata O)) (m : Move O) : Option (Calling (Metadata O)) :=
  (c.envelope env m).bind (c.step env)

end Calling

end

/-- A start that changes the document under the revision that there is: presets without an order,
or the logo of an older version. -/
def Act.migrates (s : System (Metadata O)) : Act O → Bool
  | .migrate presets _ =>
    match s.phase with
    | .starting f => f.document.presets ≠ presets
    | _ => false
  | .importLegacy .. => true
  | _ => false

def Move.migrates (c : Calling (Metadata O)) : Move O → Bool
  | .act a => a.migrates c.system
  | _ => false

/-- What the revisions of two envelopes say about their documents, the later one second. -/
structure Follows (a f : StateFile (Metadata O)) : Prop where
  numbered : f.Numbered
  revision : a.rest.revision ≤ f.rest.revision
  document : a.rest.revision = f.rest.revision → f.document = a.document
  domains : ∀ d, a.rest.domainRevisions d ≤ f.rest.domainRevisions d
  sections : ∀ d, a.rest.domainRevisions d = f.rest.domainRevisions d →
    sectionDiff a.document f.document d = []

end NdimonR.State.AssetStore
