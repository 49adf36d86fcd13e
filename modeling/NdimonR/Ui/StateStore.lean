import NdimonR.Library.Json
import NdimonR.Library.Steps
import NdimonR.Types.Wire

/-! The browser's cache of the configuration: control's actor with the documents that it serves and
the events that it sends, the hub that passes them on, one event stream, and the store, which reads
documents and puts single domains together.

Between a request, its answer and what the store makes of it anything else can happen. The store's
own work is done one task after another. -/

namespace NdimonR.Ui

open Types

/-- A document as it is served: a value for each domain. -/
structure Document where
  revision : ℕ
  state : Domain → Json

inductive StatusSource where
  | decoder
  | finder
  | tessera
  | network
  | services
  deriving DecidableEq, Repr

structure Observed where
  domains : Domain → Json
  /-- What a new delta leaves as it was. -/
  rest : Json

/-- The events of the stream. Some only announce that there is something to read. -/
inductive Event where
  | stateChanged (revision : ℕ) (domains : List Domain)
  | applyProgress
  | observed (domain : Domain) (delta : Json)
  | drift
  | networkPending
  | status (source : StatusSource) (data : Json)

inductive Message where
  | event (event : Event)
  | resync

/-- Control, as far as browsers see it. -/
structure Control where
  current : Document
  /-- What was served before. -/
  past : List Document := []
  /-- Events of the actor that the hub has not passed on yet. -/
  events : List Message := []

def Control.served (c : Control) : List Document := c.current :: c.past

/-- One event stream of the browser, from its request on. -/
structure EventStream where
  /-- The hub has this subscriber. -/
  subscribed : Bool := false
  /-- The connection is lost; the browser does not know yet. -/
  ended : Bool := false
  inbox : List Message := []

/-- The work that waits in the queue. -/
inductive Task where
  | reload
  | refreshObserved
  | refreshSources
  | apply (event : Event)

/-- The reply for one domain, which names the revision of the whole document. -/
structure DomainReply where
  revision : ℕ
  state : Json

/-- What the running work has asked for, with the replies so far. -/
inductive Work where
  | reload (state : Option Document) (observed : Option Observed) (decoder finder : Option Json)
  /-- One document, for a change that cannot be put together. -/
  | document (state : Option Document)
  | domains (revision : ℕ) (replies : List (Domain × Option DomainReply))
  | observed (reply : Option Observed)
  | sources (reply : Option Json)
  | status (source : StatusSource) (reply : Option Json)

structure StateStore where
  snapshot : Option Document := none
  observation : Option Observed := none
  statuses : StatusSource → Option Json := fun _ => none
  stream : Option EventStream := none
  /-- The timer of the next connection is set. -/
  retry : Bool := false
  stopped : Bool := true
  generation : ℕ := 0
  queue : List (ℕ × Task) := []
  running : Option (ℕ × Work) := none
  /-- The calls of the listeners, last first. -/
  told : List (Document × List Domain) := []

structure System where
  control : Control
  store : StateStore := {}

/-- The keys of a document that are domains. -/
def everyDomain : List Domain :=
  [.audio, .device, .display, .ndi, .network, .outputs, .plugins, .presets, .tessera]

/-- Edges of the decoder announce a change; they are no complete status. -/
def isEdge (source : StatusSource) (data : Json) : Bool :=
  source = .decoder && (data.member "type" = .str "connection" ||
    data.member "type" = .str "routing")

def disconnected : Json := .obj [("connected", .bool false), ("outputs", .arr [])]

def noSources : Json := .obj [("list", .obj [])]

namespace StateStore

variable (s : StateStore)

def notify (domains : List Domain) : StateStore :=
  match s.snapshot with
  | some state => { s with told := (state, domains) :: s.told }
  | none => s

def publish (state : Document) (domains : List Domain) : StateStore :=
  if s.snapshot.any (fun old => state.revision < old.revision) then s
  else notify { s with snapshot := some state } domains

def enqueue (task : Task) : StateStore := { s with queue := s.queue ++ [(s.generation, task)] }

def connect : StateStore := { s with stream := some {} }

def start : StateStore :=
  if s.stopped then (connect { s with stopped := false }).enqueue .reload else s

def stop : StateStore :=
  { s with
    stopped := true
    generation := s.generation + 1
    stream := none
    retry := false }

/-- The stream has handed over a message. -/
def receive : Message → StateStore
  | .event event => s.enqueue (.apply event)
  | .resync => s.enqueue .reload

/-- `onerror`. -/
def lose : StateStore :=
  { s with
    stream := none
    retry := true }

def reconnect : StateStore := (connect { s with retry := false }).enqueue .reload

def setStatus (source : StatusSource) (data : Json) : StateStore :=
  { s with statuses := Function.update s.statuses source (some data) }

/-- A task begins: it is done, or it has to read something. -/
def perform : Task → StateStore × Option Work
  | .reload => (s, some (.reload none none none none))
  | .refreshObserved => (s, some (.observed none))
  | .refreshSources => (s, some (.sources none))
  | .apply (.stateChanged revision domains) =>
    match s.snapshot with
    | none => (s, some (.document none))
    | some state =>
      if revision ≤ state.revision then (s, none)
      else if revision ≠ state.revision + 1 then (s, some (.document none))
      else (s, some (.domains revision (domains.eraseDups.map fun domain => (domain, none))))
  | .apply .applyProgress => (s, none)
  | .apply (.observed domain delta) =>
    let observation := s.observation.map fun o =>
      { o with domains := Function.update o.domains domain delta }
    (notify { s with observation } [], none)
  | .apply .drift | .apply .networkPending => (s, some (.observed none))
  | .apply (.status source data) =>
    if isEdge source data then (s, some (.status source none))
    else ((s.setStatus source data).notify [], none)

/-- The next task, unless it was queued before the last stop. -/
def begin : Option StateStore :=
  match s.running, s.queue with
  | none, (generation, task) :: queue =>
    let s := { s with queue }
    if generation = s.generation then
      let (s, work) := s.perform task
      some { s with running := work.map (generation, ·) }
    else some s
  | _, _ => none

/-- The replies, once all of them are there. -/
def answered (replies : List (Domain × Option DomainReply)) :
    Option (List (Domain × DomainReply)) :=
  replies.mapM fun r => r.2.map (Prod.mk r.1)

/-- The document of the domains that were read, where all of them are of the announced revision. -/
def assemble (state : Document) (revision : ℕ) (replies : List (Domain × DomainReply)) :
    Document :=
  { revision
    state := replies.foldl (fun state r => Function.update state r.1 r.2.state) state.state }

/-- All replies are there. What a stop has overtaken is left alone. -/
def settle : Option StateStore :=
  match s.running with
  | none => none
  | some (generation, work) =>
    let valid := generation = s.generation
    let idle := { s with running := none }
    match work with
    | .reload (some state) (some observed) (some decoder) (some finder) =>
      if valid then
        let s := { idle with observation := some observed }
        some (((s.setStatus .decoder decoder).setStatus .finder finder).publish state everyDomain)
      else some idle
    | .document (some state) => some (if valid then idle.publish state everyDomain else idle)
    | .domains revision replies =>
      (answered replies).bind fun answers =>
        if answers.isEmpty || answers.any (·.2.revision ≠ revision) then
          some { s with running := some (generation, .document none) }
        else if valid then
          s.snapshot.map fun state =>
            idle.publish (assemble state revision answers) (answers.map (·.1))
        else some idle
    | .observed (some observed) =>
      some (if valid then notify { idle with observation := some observed } [] else idle)
    | .sources (some finder) =>
      some (if valid ∧ s.statuses .finder ≠ some finder then
        (idle.setStatus .finder finder).notify [] else idle)
    | .status source (some data) =>
      some (if valid then (idle.setStatus source data).notify [] else idle)
    | _ => none

/-- One of the requests fails, and the work with it. -/
def fail : Option StateStore :=
  match s.running with
  | some (_, .reload none _ _ _) | some (_, .reload _ none _ _) | some (_, .document none)
  | some (_, .observed none) | some (_, .sources none) | some (_, .status _ none) =>
    some { s with running := none }
  | some (_, .domains _ replies) =>
    if replies.any (·.2.isNone) then some { s with running := none } else none
  | _ => none

end StateStore

inductive Act where
  -- control
  /-- A turn of the actor with another document at its end, and the events that it sends. -/
  | turn (next : Document) (events : List Event)
  | send (event : Event)
  | lag (count : ℕ)
  | forward
  | sample (source : StatusSource) (data : Json)
  | resync
  /-- The process ends and starts again, with another document or the same. -/
  | restart (next : Option Document)
  -- the stream
  | subscribe
  | lagStream (position count : ℕ)
  | receive
  | lose
  | reconnect
  -- the store
  | start
  | stop
  | reload
  | refreshObserved
  | refreshSources
  | begin
  | answerState
  | answerDomain (domain : Domain)
  | answerObserved (observed : Observed)
  | answerStatus (reply : Option Json)
  | answerSources (reply : Option Json)
  | fail
  | settle

/-- Messages that were overwritten before they were read are one resync. -/
def lagged (position count : ℕ) (messages : List Message) : List Message :=
  messages.take position ++ .resync :: messages.drop (position + count)

namespace System

def onStore (f : StateStore → Option StateStore) (s : System) : Option System :=
  (f s.store).map fun store => { s with store }

/-- The hub passes a message on to those who have subscribed. -/
def pass (m : Message) (s : System) : System :=
  match s.store.stream with
  | some stream =>
    if stream.subscribed then
      { s with store.stream := some { stream with inbox := stream.inbox ++ [m] } }
    else s
  | none => s

def serve (next : Document) (s : System) : System :=
  { s with
    control.current := next
    control.past := s.control.served }

/-- The answer to one of the requests that run. -/
def answer (f : Work → Option Work) (s : System) : Option System :=
  s.store.running.bind fun (generation, work) =>
    (f work).map fun work => { s with store.running := some (generation, work) }

def replyFor (current : Document) (domain : Domain) (r : Domain × Option DomainReply) :
    Domain × Option DomainReply :=
  if r.1 = domain then (domain, some ⟨current.revision, current.state domain⟩) else r

def step (s : System) : Act → Option System
  | .turn next events =>
    some { s.serve next with control.events := s.control.events ++ events.map .event }
  | .send event =>
    some { s with control.events := s.control.events ++ [.event event] }
  | .lag count =>
    some { s with control.events := lagged 0 count s.control.events }
  | .forward =>
    match s.control.events with
    | m :: events => some ({ s with control.events := events }.pass m)
    | [] => none
  | .sample source data => some (s.pass (.event (.status source data)))
  | .resync => some (s.pass .resync)
  | .restart next =>
    let s := next.elim s s.serve
    let stream := s.store.stream.map fun stream =>
      { stream with
        subscribed := false
        ended := stream.ended || stream.subscribed }
    some { s with
      control.events := []
      store.stream := stream }
  | .subscribe =>
    match s.store.stream with
    | some stream =>
      if stream.subscribed || stream.ended then none
      else some { s with store.stream := some { stream with subscribed := true } }
    | none => none
  | .lagStream position count =>
    match s.store.stream with
    | some stream =>
      if stream.subscribed then
        some { s with store.stream := some { stream with
          inbox := lagged position count stream.inbox } }
      else none
    | none => none
  | .receive =>
    match s.store.stream with
    | some stream =>
      match stream.inbox with
      | m :: inbox =>
        some { s with store := { s.store with stream := some { stream with inbox } }.receive m }
      | [] => none
    | none => none
  | .lose => if s.store.stream.isSome then some { s with store := s.store.lose } else none
  | .reconnect => if s.store.retry then some { s with store := s.store.reconnect } else none
  | .start => some { s with store := s.store.start }
  | .stop => some { s with store := s.store.stop }
  | .reload => some { s with store := s.store.enqueue .reload }
  | .refreshObserved => some { s with store := s.store.enqueue .refreshObserved }
  | .refreshSources => some { s with store := s.store.enqueue .refreshSources }
  | .begin => s.onStore StateStore.begin
  | .answerState => s.answer fun
    | .reload none observed decoder finder =>
      some (.reload (some s.control.current) observed decoder finder)
    | .document none => some (.document (some s.control.current))
    | _ => none
  | .answerDomain domain => s.answer fun
    | .domains revision replies =>
      if replies.any (fun r => r.1 = domain && r.2.isNone) then
        some (.domains revision (replies.map (replyFor s.control.current domain)))
      else none
    | _ => none
  | .answerObserved observed => s.answer fun
    | .reload state none decoder finder => some (.reload state (some observed) decoder finder)
    | .observed none => some (.observed (some observed))
    | _ => none
  | .answerStatus reply => s.answer fun
    | .reload state observed none finder =>
      some (.reload state observed (some (reply.getD disconnected)) finder)
    | .status source none => reply.map fun data => .status source (some data)
    | _ => none
  | .answerSources reply => s.answer fun
    | .reload state observed decoder none =>
      let kept := (s.store.statuses .finder).getD noSources
      some (.reload state observed decoder (some (reply.getD kept)))
    | .sources none => reply.map fun data => .sources (some data)
    | _ => none
  | .fail => s.onStore StateStore.fail
  | .settle => s.onStore StateStore.settle

end System

end NdimonR.Ui
