import NdimonR.Library.Effects
import NdimonR.Privd.Manifest
import NdimonR.Types.Wire

/-! The session of a connected plugin process. A reader task queues the frames of the process;
the session takes them one by one, and the calls of the host in between. -/

namespace NdimonR.Plugins

open Json Privd

variable (floatLen : ℚ → Nat)

/-- A host call. The token is not part of it: the log tells calls apart by it. -/
structure Call where
  token : Nat
  request : Value

inductive Event where
  | arrived (serial : Nat)
  | asked (token : Nat)
  | took (serial : Nat) (frame : Value)
  | sent (id token : Nat)
  | accepted (id : Nat)
  | submitted (request : Types.CommandRequest) (origin : Types.Origin)
  | privileged (name : PluginName) (command : PluginCommandName)
  | answered (token id serial : Nat) (result : Except String Value)
  | failed (token : Nat) (error : String)
  | ended (result : Option (Except String Unit))

/-- Between frames, waiting for the response to a call, or over. -/
inductive Phase where
  | idle
  | waiting (id : Nat) (call : Call)
  | ended

/-- A session. The serial of a frame is the number of frames that arrived before it. -/
structure Session where
  queue : List (Nat × Except String Value) := []
  reading : Bool := true
  calls : List Call := []
  phase : Phase := .idle
  nextId : Nat := 2
  pluginId : Nat := 1
  arrivals : Nat := 0
  asks : Nat := 0
  log : List Event := []

/-- What the actor, the privileged service and the socket answer while one frame is handled;
nothing if the session is cut off while it waits. -/
structure Answers where
  submit : Types.CommandRequest → Types.Origin → Option (Except String Nat)
  privileged : PluginName → PluginCommandName → Option (Except String Value)
  snapshot : Option (Except String (Nat × Value))
  write : Value → Option (Except String Unit)
  notAMap : String

abbrev SessionAction := Proc Session String

def note (e : Event) (s : Session) : Session := { s with log := e :: s.log }

def acceptId (id : Nat) (s : Session) : Session :=
  { s with pluginId := id, log := .accepted id :: s.log }

/-- Waits for an answer. -/
def awaited {α : Type} : Option α → SessionAction α
  | none => Proc.stop
  | some a => pure a

/-- A value or the error that ends the session. -/
def orFail {α : Type} (error : String) : Option α → SessionAction α
  | none => Proc.fail error
  | some a => pure a

def memberCount (v : Value) : Option Nat := (asObject v.val).map List.length

/-- The envelope of a request: version 1, three members, one request. -/
def requestEnvelope (frame : Value) : Bool :=
  (frame.member "v").val = .int 1 && memberCount frame = some 3 &&
    memberCount (frame.member "req") = some 1

def field (k : String) (v : Value) : Option Value :=
  match h : get k v.val with
  | none => none
  | some j => some ⟨j, by
      have := Value.member k v |>.property
      rw [Value.val_member, member_eq_get, h] at this
      exact this⟩

namespace Answers

variable (answers : Answers) (m : Manifest)

def proposeState (p : Value) : SessionAction (Except String Value) := do
  let expected ← orFail "missing plugin revision" (asU64 (p.member "expect_revision").val)
  let data := p.member "state"
  let schema ← orFail "missing plugin schema" m.state
  match validateValue floatLen schema.schema data.val with
  | .error e => pure (.error e)
  | .ok () => do
    let state ← orFail answers.notAMap data.asMap
    let request : Types.CommandRequest :=
      { command := .setPluginData m.name state, expectRevision := some expected }
    Proc.modify (note (.submitted request (.plugin m.name)))
    let reply ← awaited (answers.submit request (.plugin m.name))
    pure (reply.map fun revision => .object [("revision", .nat revision)])

def privilege (p : Value) : SessionAction (Except String Value) :=
  let command := (asStr (p.member "command").val).getD ""
  if memberCount p ≠ some 1 then pure (.error "plugin privilege not allowed")
  else
    match m.privCommands.find? (·.val == command) with
    | none => pure (.error "plugin privilege not allowed")
    | some command => do
      Proc.modify (note (.privileged m.name command))
      awaited (answers.privileged m.name command)

/-- The one request of an envelope. -/
def perform (request : Value) : SessionAction (Except String Value) :=
  match field "propose_state" request, field "privilege" request with
  | some p, _ => answers.proposeState floatLen m p
  | none, some p => answers.privilege m p
  | none, none => pure (.error "unsupported plugin request")

/-- A rejection carries the committed revision and data. -/
def reply (id : Nat) : Except String Value → SessionAction Value
  | .ok value => pure (.object [("v", .nat 1), ("id", .nat id), ("ok", value)])
  | .error error => do
    let snapshot ← awaited answers.snapshot
    let (revision, state) ← Proc.ofExcept snapshot
    pure (.object [("v", .nat 1), ("id", .nat id), ("err", .object
      [("code", .str "rejected"), ("message", .str error), ("revision", .nat revision),
        ("state", state)])])

def processRequest (frame : Value) : SessionAction Unit := do
  let last ← Proc.read (·.pluginId)
  let id ← orFail "duplicate plugin request ID"
    ((asU64 (frame.member "id").val).filter (last < ·))
  Proc.require (requestEnvelope frame = true) "invalid plugin request envelope"
  Proc.modify (acceptId id)
  let result ← answers.perform floatLen m (frame.member "req")
  let reply ← answers.reply id result
  let written ← awaited (answers.write reply)
  Proc.ofExcept written

end Answers

namespace Session

/-- The session is over, and so is its reader. -/
def finish (result : Option (Except String Unit)) (s : Session) : Session :=
  { s with phase := .ended, reading := false, queue := [], calls := [],
           log := .ended result :: s.log }

/-- The pending call fails, and the session with it. -/
def failCall (token : Nat) (error : String) (s : Session) : Session :=
  (note (.failed token error) s).finish (some (.error "plugin command failed or timed out"))

def responseEnvelope (id : Nat) (frame : Value) : Bool :=
  (frame.member "v").val = .int 1 && (frame.member "id").val = .int id &&
    memberCount frame = some 3

def errorMessage (error : Value) : String :=
  (asStr (error.member "message").val).getD "plugin command failed"

/-- What the session does with a frame while a call waits for its response. -/
def respond (serial id : Nat) (call : Call) (frame : Value) (s : Session) : Session :=
  if responseEnvelope id frame = false then
    s.failCall call.token "invalid plugin response ID or envelope"
  else
    match field "err" frame, field "ok" frame with
    | some error, _ =>
      (note (.answered call.token id serial (.error (errorMessage error))) s).finish
        (some (.error "plugin command failed or timed out"))
    | none, some value =>
      { note (.answered call.token id serial (.ok value)) s with phase := .idle }
    | none, none => s.failCall call.token "missing plugin response"

/-- A request in either loop: only what becomes of a failure differs. -/
def handle (m : Manifest) (answers : Answers) (frame : Value) (onError : String → Session → Session)
    (onCut : Session → Session) (s : Session) : Session :=
  match answers.processRequest floatLen m frame s with
  | (.ok (), t) => t
  | (.err e, t) => onError e t
  | (.crash, t) => onCut t

end Session

inductive Action where
  | arrive (frame : Except String Value)
  | ask (request : Value)
  | frame (answers : Answers)
  | call (answers : Answers)
  | timeout
  | hangUp
  | abort

/-- The bound of both queues. -/
def queueLimit : Nat := 16

def maxU64 : Nat := 18446744073709551615

namespace Session

variable (m : Manifest)

def takeFrame (answers : Answers) (s : Session) : Option Session :=
  match s.phase, s.queue with
  | .ended, _ => none
  | .idle, [] => if s.reading then none else some (s.finish (some (.error "plugin disconnected")))
  | .idle, (_, .error e) :: _ => some (s.finish (some (.error e)))
  | .idle, (serial, .ok frame) :: rest =>
    some (handle floatLen m answers frame (fun e => finish (some (.error e))) (finish none)
      (note (.took serial frame) { s with queue := rest }))
  | .waiting _ call, [] =>
    if s.reading then none else some (s.failCall call.token "plugin disconnected")
  | .waiting _ call, (_, .error e) :: _ => some (s.failCall call.token e)
  | .waiting id call, (serial, .ok frame) :: rest =>
    let taken := note (.took serial frame) { s with queue := rest }
    if (field "req" frame).isSome then
      some (handle floatLen m answers frame (fun e => failCall call.token e)
        (failCall call.token "plugin command timeout") taken)
    else some (respond serial id call frame taken)

def takeCall (answers : Answers) (s : Session) : Option Session :=
  match s.phase, s.calls with
  | .idle, call :: rest =>
    let s := { s with calls := rest }
    if maxU64 ≤ s.nextId then some (s.finish (some (.error "plugin ID exhausted")))
    else
      let id := s.nextId
      let s := note (.sent id call.token) { s with nextId := id + 1 }
      match answers.write (.object [("v", .nat 1), ("id", .nat id), ("req", call.request)]) with
      | none => some (s.finish none)
      | some (.error e) => some (s.finish (some (.error e)))
      | some (.ok ()) => some { s with phase := .waiting id call }
  | _, _ => none

/-- Frames and calls arrive at any time; a full queue of frames ends the reader, a full queue of
calls the session. -/
def step (s : Session) : Action → Option Session
  | .arrive frame =>
    if s.reading = false then none
    else if s.queue.length < queueLimit then
      some { note (.arrived s.arrivals) s with
        queue := s.queue ++ [(s.arrivals, frame)]
        arrivals := s.arrivals + 1
        reading := frame.toBool }
    else some { s with reading := false }
  | .ask request =>
    match s.phase with
    | .ended => none
    | _ =>
      if s.calls.length < queueLimit then
        some { note (.asked s.asks) s with
          calls := s.calls ++ [⟨s.asks, request⟩]
          asks := s.asks + 1 }
      else some (s.finish none)
  | .frame answers => s.takeFrame floatLen m answers
  | .call answers => s.takeCall answers
  | .timeout =>
    match s.phase with
    | .waiting _ call => some (s.failCall call.token "plugin command timeout")
    | _ => none
  | .hangUp =>
    match s.phase, s.calls with
    | .idle, [] => some (s.finish (some (.ok ())))
    | _, _ => none
  | .abort =>
    match s.phase with
    | .ended => none
    | _ => some (s.finish none)

/-- What a run of any length can reach from the handshake. -/
def Reachable (s : Session) : Prop :=
  Relation.ReflTransGen (fun s t : Session => ∃ a, s.step floatLen m a = some t) {} s

end Session

/-! ### Commands the host has a plugin run -/

def invalid (reason : String) : Types.ApiError := .ofErrors [⟨"plugins", reason⟩]

def orInvalid {α : Type} (r : Except String α) : Except Types.ApiError α := r.mapError invalid

/-- The snapshot a command starts from, and the installed manifest of the plugin. -/
structure Before where
  revision : Nat
  pluginJob : Bool
  enabled : Bool
  manifest : Except Types.ApiError Manifest

/-- The checks before the plugin is called: its manifest, the schema of the command and the
revision the proposal is committed against. -/
def Before.admits (before : Before) (command : String) (input : Value) (revision : Option Nat) :
    Except Types.ApiError (Manifest × CommandSchema × Nat) := do
  let expected := revision.getD before.revision
  if before.pluginJob then .error .stillApplying
  else if expected ≠ before.revision then .error (.revisionConflict before.revision)
  else do
    let m ← before.manifest
    if m.process.isNone || !before.enabled then .error (invalid "plugin process is not enabled")
    else
      match m.commands.get? command with
      | none => .error (invalid "unknown plugin command")
      | some schema => do
        orInvalid (validateValue floatLen schema.input input.val)
        .ok (m, schema, expected)

/-- The command that commits what the plugin answered. -/
def proposal (name : String) (m : Manifest) (schema : CommandSchema) (expected : Nat)
    (notAMap : String) (reply : Value) : Except Types.ApiError Types.CommandRequest := do
  orInvalid (validateValue floatLen schema.output (reply.member "output").val)
  match m.state with
  | none => .error (invalid "missing plugin state")
  | some state => do
    orInvalid (validateValue floatLen state.schema (reply.member "state").val)
    match (reply.member "state").asMap with
    | none => .error (invalid notAMap)
    | some data => .ok { command := .setPluginData name data, expectRevision := some expected }

end NdimonR.Plugins
