import NdimonR.Engine.Transactions

/-! Runs of the engine: its calls one after another, each with any answers of the outside, between
the passing of time, commits of other domains, reboots and the release of the network. -/

namespace NdimonR.Engine

open Types

inductive Call where
  | stage (candidate : NetworkProfiles) (expectRevision : Nat) (session : Option NetworkSessionPath)
  | commitHandoff (source : NetworkHandoff) (expectImpact : String)
      (session : Option NetworkSessionPath)
  | runApplyJob (jobId : String)
  | confirm (token : String) (localAddress : Option IpAddr)
  | revert (token : String)
  | rollback
  | runRecovery (jobId : String)
  | boot
  | acceptCurrent

def Call.run (config : EngineConfig) : Call → Action Unit
  | .stage candidate revision session => do
    let _ ← Engine.stage config candidate revision session
  | .commitHandoff source token session => do
    let _ ← Engine.commitHandoff config source token session
  | .runApplyJob id => Engine.runApplyJob config id
  | .confirm token address => do
    let _ ← Engine.confirm token address
  | .revert token => Engine.revert token
  | .rollback => Engine.rollback
  | .runRecovery id => Engine.runRecovery id
  | .boot => do
    let _ ← Engine.boot
  | .acceptCurrent => do
    let _ ← Engine.acceptCurrent

/-- One thing that happens to the device. A releasing engine that prepares, cancels or completes a
release writes its own quiesce marker, and no other. -/
inductive Step where
  | call (c : Call) (script : List Answer)
  | pass (elapsed writes : Nat)
  | reboot (uptime : Nat)
  | release (quiesced externallyManaged : Bool)
  | peer (quiesce : Option String)

/-- The journal variable of a call that has not read one yet. -/
def noJournal : Journal :=
  { operation := .network, jobId := "", token := "", base := {}
    plan := ⟨[], [], {}, {}, {}, {}, none, [], [], 0, []⟩
    phase := .staged, bootId := 0, deadlineMs := 0 }

def Frame.start (w : World) (script : List Answer) : Frame := ⟨w, script, noJournal⟩

def World.reboot (uptime : Nat) (w : World) : World :=
  { w.writeFile banner none with bootId := w.bootId + 1, now := uptime }

/-- A release is prepared under the store's lock, by an engine with nothing pending. -/
def World.setRelease (quiesced externallyManaged : Bool) (w : World) : World :=
  if quiesced && w.pending.isSome then w else { w with quiesced, externallyManaged }

/-- The banner is the one planned file on a volatile file system. -/
def World.step (config : EngineConfig) (w : World) : Step → World
  | .call c script => (c.run config (.start w script)).2.world
  | .pass elapsed writes => w.pass elapsed writes
  | .reboot uptime => w.reboot uptime
  | .release quiesced externallyManaged => w.setRelease quiesced externallyManaged
  | .peer quiesce => { w with peerQuiesce := quiesce }

def World.run (config : EngineConfig) (w : World) (steps : List Step) : World :=
  steps.foldl (World.step config) w

/-- A device on which no transaction has run yet: no journal, no banner, and an authority whose
network decision is not newer than its revision. -/
structure World.Initial (w : World) : Prop where
  pending : w.pending = none
  banner : w.files banner = none
  trace : w.trace = []
  version : w.authority.version = 1
  decision : ∀ r, w.authority.networkCommitRevision = some r → r ≤ w.authority.revision

inductive Reachable (config : EngineConfig) (allowed : Step → Prop) : World → Prop where
  | init {w : World} : w.Initial → Reachable config allowed w
  | step {w : World} {s : Step} : Reachable config allowed w → allowed s →
      Reachable config allowed (w.step config s)

theorem Reachable.run {config : EngineConfig} {allowed : Step → Prop} {w : World}
    (h : Reachable config allowed w) (steps : List Step) (hs : ∀ s ∈ steps, allowed s) :
    Reachable config allowed (w.run config steps) := by
  induction steps generalizing w with
  | nil => exact h
  | cons s rest ih =>
    have hfirst : allowed s := hs s (by simp)
    have hrest : ∀ s ∈ rest, allowed s := fun s hm => hs s (by simp [hm])
    exact ih (h.step hfirst) hrest

/-! ## A device to run on -/

def studioId : String := "0123456789abcdef0123456789abcdef0123456789abcdef0123456789abcdef"

def studioNetwork (name : String) : NetworkProfiles :=
  { interface := "eth0"
    backend := some .networkd
    networks := [{ id := "main", name }]
    roles := { management := "main", ndi := "main", audio := "main" } }

def studioConfig : EngineConfig := ⟨[.networkd], none⟩

/-- An adopted device that nothing has happened to. -/
def studio : World := { files := fun _ => none, authority := { profiles := studioNetwork "LAN" } }

theorem studio_initial : studio.Initial :=
  ⟨rfl, rfl, rfl, rfl, fun _ h => nomatch h⟩

/-- Stages a renamed network and applies it; every answer of the outside is a success. -/
def studioApplied : List Step :=
  [.call (.stage (studioNetwork "Studio") 0 none) (List.replicate 60 { text := studioId }),
   .call (.runApplyJob studioId) []]

end NdimonR.Engine
