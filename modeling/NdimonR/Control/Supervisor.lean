import NdimonR.Control.Throttle
import NdimonR.Library.Reading
import NdimonR.Library.Steps
import NdimonR.State.Outputs
import NdimonR.State.Plan

/-! Source recovery beside the state actor. The supervisor is one task that waits in between (for a
message, the document, the decoder, its own command); while it waits the actor admits commands of
others and announces them. The actor counts a command before it announces it. -/

namespace NdimonR.Control.Supervisor

open Types Json State.Outputs
open Throttle (second)

def grace : ℕ := 30 * second

/-- What the broadcast channel keeps for a slow receiver. -/
def capacity : ℕ := 256

structure CommandActivity where
  command : Command
  time : ℕ

structure Retry where
  source : NdiSourceRef
  attempts : ℕ := 0
  lastEndpoint : String := ""
  due : ℕ
  stalled : Bool

namespace Retry

/-- Every other attempt goes without the saved endpoint, by name or by a fresh discovery. -/
def endpoint (sources : Json) (retry : Retry) : NdiSourceRef × Retry :=
  let attempts := min (retry.attempts + 1) 4294967295
  let direct := attempts % 2 = 1
  let discovered := (Json.asStr ((sources.member "list").member retry.source.name)).filter fun s =>
    validEndpoint s && (direct || s ≠ retry.lastEndpoint)
  let endpoint := discovered.getD (if direct then retry.source.endpoint else "")
  (⟨retry.source.name, endpoint⟩, { retry with
    attempts
    lastEndpoint := if endpoint = "" then retry.lastEndpoint else endpoint })

def pause : ℕ → ℕ
  | 0 => 5 * second
  | 1 => 10 * second
  | 2 => 20 * second
  | _ => 30 * second

def reschedule (now : ℕ) (retry : Retry) : Retry :=
  { retry with due := now + pause retry.attempts }

end Retry

def outputId (data : Json) (key : String) : Option OutputId :=
  ((asU64 (data.member key)).filter (· < 8)).map (· + 1)

def outputsOf (data : Json) : List Json := (asArray (data.member "outputs")).getD []

structure Recovery where
  saved : DesiredState := {}
  retries : SortedMap OutputId Retry := .empty
  grace : SortedMap OutputId ℕ := .empty

namespace Recovery

variable (now : ℕ)

def drop (id : OutputId) (r : Recovery) : Recovery := { r with retries := r.retries.erase id }

def activity (a : CommandActivity) (r : Recovery) : Recovery :=
  match a.command with
  | .selectSource id _ | .reconnectSource id | .adoptRemoteSource id _ =>
    { r.drop id with grace := r.grace.insert id (a.time + Supervisor.grace) }
  | .forgetSource id => { r.drop id with grace := r.grace.erase id }
  | _ => r

/-- Lost manual activity is never permission to keep an old timer. -/
def lagged (r : Recovery) : Recovery := { r with
  retries := .empty
  grace := [1, 2, 3, 4, 5, 6, 7, 8].foldl
    (fun m id => m.insert id (now + Supervisor.grace)) r.grace }

def update (saved : DesiredState) (r : Recovery) : Recovery := { r with
  saved
  retries := r.retries.filter fun id retry => savedSource saved id = some retry.source ∧
    (!retry.stalled ∨ saved.device.watchdogMode = .active) }

def waits (id : OutputId) (r : Recovery) : Bool := (r.grace.get? id).any (now < ·)

def start (id : OutputId) (stalled : Bool) (r : Recovery) : Recovery :=
  if r.waits now id then r
  else match (savedSource r.saved id).filter fun s => s.name ≠ "" ∧ s.name ≠ "None" with
    | none => r.drop id
    | some source =>
      if r.retries.contains id then r
      else { r with
        retries := r.retries.insert id { source, due := now + 5 * second, stalled } }

def connection (id : OutputId) (data : Json) (r : Recovery) : Recovery :=
  if data.member "drm_ready" = .bool false then r.drop id
  else if data.member "connected" = .bool true then
    let r := { r with grace := r.grace.erase id }
    if (r.retries.get? id).any (·.stalled) then r else r.drop id
  else if data.member "connected" = .bool false then r.start now id false
  else r

/-- A real success event ends even watchdog-initiated recovery. -/
def event (data : Json) (r : Recovery) : Recovery :=
  if data.member "type" = .str "connection" then
    match outputId data "output" with
    | none => r
    | some id =>
      (if data.member "connected" = .bool true then r.drop id else r).connection now id data
  else r

def statusOf (r : Recovery) (output : Json) : Recovery :=
  if output.member "connected" = .bool true ∧
      r.waits now ((outputId output "output_index").getD 0) then r
  else match outputId output "output_index" with
    | none => r
    | some id => r.connection now id output

def status (data : Json) (r : Recovery) : Recovery := (outputsOf data).foldl (statusOf now) r

/-- Recovery that the watchdog began ends when the decoder says that all is well. -/
def recovered (data : Json) (r : Recovery) : Recovery :=
  (outputsOf data).foldl (fun r output =>
    if output.member "health" = .str "ok" ∨ output.member "health" = .str "idle" then
      match outputId output "output" with
      | none => r
      | some id => if (r.retries.get? id).any (·.stalled) then r.drop id else r
    else r) r

/-- The outputs of the decoder's health reply that stand still for long. -/
def stalled (mode : WatchdogMode) (data : Json) : List OutputId :=
  (outputsOf data).filterMap fun output =>
    if output.member "connected" ≠ .bool true ∨ (Json.asStr (output.member "health")).all
        fun health => health = "ok" ∨ health = "idle" then none
    else if mode = .active ∧ (asU64 (output.member "stall_count")).any (60 ≤ ·) then
      outputId output "output"
    else none

def health (reply : Option Json) (r : Recovery) : Recovery :=
  match reply with
  | none => r
  | some data => (stalled r.saved.device.watchdogMode data).foldl
      (fun r id => r.start now id true) (r.recovered data)

/-- The first retry that is due, in the order of the outputs. -/
def due (r : Recovery) : Option (OutputId × Retry) :=
  r.retries.entries.find? fun e => e.2.due ≤ now

end Recovery

/-- A Discovery Server controller switched an output: save that source. -/
def remoteSource (saved : DesiredState) (data : Json) : Option Command := do
  guard (data.member "type" = .str "remote_source")
  let id ← outputId data "output"
  let name ← Json.asStr (data.member "source")
  guard saved.ndi.remoteControl
  guard (((savedSource saved id).map (·.name)).getD "" ≠ name)
  pure (.adoptRemoteSource id (if name = "" then none else some ⟨name, ""⟩))

/-- What comes from the event hub. -/
inductive HubEvent where
  | decoder (data : Json)
  | other
  /-- A resync, or messages were lost. -/
  | lost

/-- Why the supervisor reads the document. -/
inductive Turn where
  | activity
  | event (message : HubEvent)
  | status
  | health
  | routed
  | retry (fence : ℕ)

inductive Phase where
  | idle
  | refreshing (turn : Turn)
  /-- The decoder is asked, or for a retry the catalog of sources. -/
  | asking (turn : Turn)
  | routing (command : Command)
  | retrying (output : OutputId) (source : NdiSourceRef) (fence : ℕ) (previous : Retry)
  | retried (output : OutputId)

/-- What has happened, latest first. -/
inductive Deed where
  | admitted (command : Command) (time : ℕ)
  /-- A retry of the supervisor, at this time and with this source saved. -/
  | retried (output : OutputId) (source : NdiSourceRef) (saved : Option NdiSourceRef) (time : ℕ)
  | fenced
  /-- An event of the decoder. -/
  | heard (data : Json)

structure System where
  now : ℕ := 0
  document : DesiredState
  sequence : ℕ := 0
  /-- Counted, and not yet sent. -/
  announcing : Option Command := none
  queue : List CommandActivity := []
  /-- Activities were lost that the supervisor has not heard of. -/
  lagged : Bool := false
  recovery : Recovery := {}
  phase : Phase := .idle
  past : List Deed := []

inductive Act where
  | tick (time : ℕ)
  -- the actor
  | replace (document : DesiredState)
  | submit (command : Command)
  | announce
  -- the supervisor
  | receive
  | event (message : HubEvent)
  | statusTick
  | healthTick
  | timer
  | refreshed (snapshot : Bool)
  | answered (reply : Option Json)
  | routed (admitted : Bool)
  | retried (admitted : Bool)
  | returned

namespace System

/-- The module of the outputs takes its own commands; the others may be taken. -/
def admits (s : System) (command : Command) : Bool :=
  s.announcing.isNone &&
    (!State.owns .outputs command || (reduce s.document command).toBool)

def record (command : Command) (deed : Deed) (s : System) : System := { s with
  sequence := s.sequence + 1
  announcing := some command
  past := deed :: s.past }

def announce (command : Command) (s : System) : System :=
  let activity : CommandActivity := ⟨command, s.now⟩
  if s.queue.length < capacity then
    { s with announcing := none, queue := s.queue ++ [activity] }
  else { s with announcing := none, queue := s.queue.tail ++ [activity], lagged := true }

def drain (s : System) : System :=
  let recovery := if s.lagged then s.recovery.lagged s.now else s.recovery
  { s with
    lagged := false
    queue := []
    recovery := s.queue.foldl (fun r a => r.activity a) recovery }

def hear (data : Json) (recovery : Recovery) (s : System) : System :=
  { s with recovery, past := .heard data :: s.past }

/-- After the read of the document. -/
def proceed (turn : Turn) (s : System) : System :=
  match turn with
  | .activity => { s with phase := .idle }
  | .routed => { s.drain with phase := .idle }
  | .status => { s with phase := .asking .status }
  | .retry fence => { s with phase := .asking (.retry fence) }
  | .health =>
    let recovery := if s.recovery.saved.device.watchdogMode = .active then s.recovery
      else { s.recovery with retries := s.recovery.retries.filter fun _ r => !r.stalled }
    { s with
      recovery
      phase := if s.recovery.saved.device.watchdogMode = .disabled then .idle
        else .asking .health }
  | .event .lost => { s.drain with phase := .asking (.event .lost) }
  | .event .other => { s.drain with phase := .idle }
  | .event (.decoder data) =>
    let s := s.drain
    let s := s.hear data (s.recovery.event s.now data)
    { s with phase := ((remoteSource s.recovery.saved data).map .routing).getD .idle }

/-- One retry a turn, so that the next output uses a fresh sequence. -/
def attempt (fence : ℕ) (sources : Json) (s : System) : System :=
  match s.recovery.due s.now with
  | none => { s with phase := .idle }
  | some (id, retry) =>
    let (source, next) := retry.endpoint sources
    { s with
      recovery := { s.recovery with retries := s.recovery.retries.insert id next }
      phase := .retrying id source fence retry }

def hearStatus (reply : Option Json) (s : System) : System :=
  match reply with
  | none => s
  | some data => { s with recovery := s.recovery.status s.now data }

def answered (turn : Turn) (reply : Option Json) (s : System) : Option System :=
  match turn with
  | .event .lost => some { s.hearStatus reply with phase := .idle }
  | .status =>
    some { (if reply.isSome then s.drain else s).hearStatus reply with phase := .idle }
  | .health =>
    let s := s.drain
    some { s with recovery := s.recovery.health s.now reply, phase := .idle }
  | .retry fence => some (s.drain.attempt fence (reply.getD .null))
  | _ => none

def put (id : OutputId) (retry : Retry) (s : System) : System :=
  { s with recovery := { s.recovery with retries := s.recovery.retries.insert id retry } }

def reschedule (id : OutputId) (s : System) : System :=
  match s.recovery.retries.get? id with
  | none => s
  | some retry => s.put id (retry.reschedule s.now)

def step (s : System) : Act → Option System
  | .tick time => some { s with now := s.now + time }
  | .replace document => some { s with document }
  | .submit command =>
    if s.admits command then some (s.record command (.admitted command s.now)) else none
  | .announce => s.announcing.map fun command => s.announce command
  | .receive =>
    match s.phase, s.lagged, s.queue with
    | .idle, true, _ => some { s with
        lagged := false
        recovery := s.recovery.lagged s.now
        phase := .refreshing .activity }
    | .idle, false, a :: rest => some { s with
        queue := rest
        recovery := s.recovery.activity a
        phase := .refreshing .activity }
    | _, _, _ => none
  | .event message =>
    match s.phase with
    | .idle => some { s with phase := .refreshing (.event message) }
    | _ => none
  | .statusTick =>
    match s.phase with
    | .idle => some { s with phase := .refreshing .status }
    | _ => none
  | .healthTick =>
    match s.phase with
    | .idle => some { s with phase := .refreshing .health }
    | _ => none
  | .timer =>
    match s.phase with
    | .idle => some { s with
        phase := .refreshing (.retry s.sequence)
        past := .fenced :: s.past }
    | _ => none
  -- The actor answers between two commands.
  | .refreshed snapshot =>
    match s.phase, s.announcing with
    | .refreshing turn, none =>
      let recovery := if snapshot then s.recovery.update s.document else s.recovery
      some ({ s with recovery }.proceed turn)
    | _, _ => none
  | .answered reply =>
    match s.phase with
    | .asking turn => s.answered turn reply
    | _ => none
  | .routed admitted =>
    match s.phase with
    | .routing command =>
      if !admitted then some { s with phase := .refreshing .routed }
      else if s.admits command then
        some { s.record command (.admitted command s.now) with phase := .refreshing .routed }
      else none
    | _ => none
  | .retried admitted =>
    match s.phase with
    | .retrying id source fence previous =>
      if s.announcing.isSome then none
      else if s.sequence ≠ fence then some { s.put id previous with phase := .idle }
      else if !admitted then some { s.reschedule id with phase := .idle }
      else if s.admits (.retrySource id source) then
        some { s.record (.retrySource id source)
            (.retried id source (savedSource s.document id) s.now) with
          phase := .retried id }
      else none
    | _ => none
  | .returned =>
    match s.phase with
    | .retried id => some { s.reschedule id with phase := .idle }
    | _ => none

end System

end NdimonR.Control.Supervisor
