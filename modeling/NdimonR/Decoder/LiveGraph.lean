import NdimonR.Decoder.AudioEngine
import NdimonR.Decoder.DelayLine
import Mathlib.Logic.Relation

/-! The graph the audio engine plays: how a request builds the next one from it, how that takes over
between two periods, and what a period does to its fades. -/

namespace NdimonR.Decoder.AudioEngine

open Json

/-- What was allocated, for which endpoint or route, and by the how many-th graph. -/
inductive Kind where
  | source
  | sink
  | route
  deriving DecidableEq

structure Address where
  built : ℕ
  kind : Kind
  id : String
  deriving DecidableEq

structure Buffer where
  address : Address
  channels : ℕ
  frames : ℕ
  deriving DecidableEq

structure MixInput where
  block : Address
  gain : ℚ
  startGain : ℚ := -1
  fadeOffset : ℕ := 480
  deriving DecidableEq

namespace Graph

/-- `placeholder` stands where no device could be opened. -/
structure Source where
  settings : SourceSettings
  placeholder : Bool
  buffer : Buffer
  delay : Address
  selected : Bool := true
  deriving DecidableEq

structure Sink where
  settings : SinkSettings
  placeholder : Bool
  buffer : Buffer
  delay : Address
  inputs : List MixInput := []
  deriving DecidableEq

structure Route where
  settings : RouteSettings
  source : ℕ
  sink : ℕ
  buffer : Buffer
  delay : Address
  capacity : ℕ
  historyReset : Bool
  deriving DecidableEq

end Graph

structure Graph where
  settings : AudioSettings
  sources : List Graph.Source
  sinks : List Graph.Sink
  routes : List Graph.Route
  deriving DecidableEq

/-! ### Gains -/

-- `power` is a power of ten of a twentieth.
variable (power : ℚ → ℚ)

def dbToGain (db : ℚ) : ℚ := if db ≤ -60 then 0 else power db

namespace MixInput

/-- What frame `n` of the next period is multiplied by. -/
def gainAt (i : MixInput) (n : ℕ) : ℚ :=
  let t := min 1 (((i.fadeOffset + n : ℕ) : ℚ) / 480)
  if i.startGain < 0 then i.gain else i.startGain + (i.gain - i.startGain) * t

/-- After a period of so many frames. -/
def advance (frames : ℕ) (i : MixInput) : MixInput :=
  { i with fadeOffset := min 480 (i.fadeOffset + frames) }

end MixInput

structure Samples where
  channels : ℕ
  frames : ℕ
  plane : ℕ → ℕ → ℚ

/-- A channel of a sink from the channels of a source, six of them on two. -/
def mapped (b : Samples) (channels c n : ℕ) : ℚ :=
  if 6 ≤ b.channels ∧ channels = 2 then
    b.plane c n + 707 / 1000 * (b.plane 2 n + b.plane (4 + c) n) + 1 / 2 * b.plane 3 n
  else if b.channels = 1 then b.plane 0 n
  else if c < b.channels then b.plane c n
  else 0

/-- Frame `n` of channel `c` of what a sink with so many channels is given. -/
def mix (blocks : Address → Samples) (inputs : List MixInput) (channels c n : ℕ) : ℚ :=
  inputs.foldl (fun out input =>
    let b := blocks input.block
    if b.frames ≤ n ∨ b.channels = 0 then out else out + input.gainAt n * mapped b channels c n) 0

namespace Graph

/-! ### The inputs of a sink -/

/-- Version 1: what the sink mixes of each source. -/
def mixInputs (g : Graph) (sink : Sink) : List MixInput :=
  g.sources.filterMap fun source => (sink.settings.mix.get? source.settings.id).map fun gain =>
    { block := source.buffer.address
      gain := if source.settings.enabled then
        dbToGain power gain * dbToGain power source.settings.gainDb else 0 }

def routeOn (g : Graph) (route : Route) : Bool :=
  route.settings.enabled &&
    ((g.settings.outputs.get? route.settings.output).any fun out =>
      (valueOr getBool out "enabled" false).toOption.getD false) &&
    (g.sources[route.source]?.any fun source => source.settings.enabled)

/-- Version 2: the routes to the sink at a place. -/
def routeInputs (g : Graph) (k : ℕ) : List MixInput :=
  (g.routes.filter fun route => route.sink = k).map fun route =>
    { block := route.buffer.address
      gain := if g.routeOn route then dbToGain power route.settings.gainDb else 0 }

/-- A source without an enabled route is not pulled. -/
def selects (g : Graph) (k : ℕ) : Bool :=
  g.routes.any fun route => route.source = k && g.routeOn route &&
    (g.sinks[route.sink]?.any fun sink => sink.settings.enabled)

def inputs (g : Graph) : Graph :=
  if g.settings.version = 1 then
    { g with sinks := g.sinks.map fun sink => { sink with inputs := g.mixInputs power sink } }
  else
    { g with
      sinks := g.sinks.mapIdx fun k sink => { sink with inputs := g.routeInputs power k }
      sources := g.sources.mapIdx fun k source => { source with selected := g.selects k } }

/-! ### Taking over -/

/-- The gain an input goes on from: that of the same block at the same sink before. -/
def startOf (old : Graph) (id : String) (block : Address) : ℚ :=
  ((old.sinks.filter fun prior => prior.settings.id = id).flatMap Sink.inputs).foldl
    (fun start p => if p.block = block then p.gainAt 0 else start) 0

def adopt (old : Option Graph) (g : Graph) : Graph :=
  { g with sinks := g.sinks.map fun sink =>
    { sink with inputs := sink.inputs.map fun input =>
      { input with
        startGain := old.elim 0 fun old => old.startOf sink.settings.id input.block
        fadeOffset := 0 } } }

/-- The delay lines of a graph, and how far behind each is to be. -/
def delays (g : Graph) : List (Address × ℕ) :=
  (g.sources.map fun s => (s.delay, s.settings.delayMs * rate / 1000)) ++
  (g.sinks.map fun s => (s.delay, s.settings.delayMs * rate / 1000)) ++
  (g.routes.map fun r => (r.delay, r.settings.delayMs * rate / 1000))

abbrev Lines := Address → DelayLine

def setDelays (g : Graph) (lines : Lines) : Lines :=
  g.delays.foldl (fun lines d => Function.update lines d.1 ((lines d.1).setDelayFrames d.2)) lines

/-! ### A period -/

/-- A sink that is not enabled is not mixed. -/
def period (g : Graph) : Graph :=
  { g with sinks := g.sinks.map fun sink =>
    if sink.settings.enabled then
      { sink with inputs := sink.inputs.map (MixInput.advance sink.buffer.frames) }
    else sink }

/-- The delay lines a period goes through. -/
def processed (g : Graph) : List Address :=
  g.sources.map Source.delay ++ g.routes.map Route.delay ++
    (g.sinks.filter fun sink => sink.settings.enabled).map Sink.delay

end Graph

/-! ### Building a graph -/

/-- What comes of opening an endpoint, the status of a fresh device included. -/
inductive Opened where
  | device (placeholder : Bool)
  | busy
  | failed (error : String)

inductive Refusal where
  | busy (id : String)
  | resources (requested budget : ℕ)
  | failed (error : String)

/-- What a request meets: the outputs whose receiver is there, and what its endpoints open to. -/
structure Surroundings where
  primary : ℕ
  registered : ℕ → Bool
  openSource : SourceSettings → Opened
  openSink : SinkSettings → Opened

def needsRestart (a b : AudioSettings) : Bool :=
  a.engine.rate ≠ b.engine.rate || a.engine.periodFrames ≠ b.engine.periodFrames ||
    a.engine.master ≠ b.engine.master

def count (channels channelCount : ℕ) : ℕ := if channelCount = 0 then channels else channelCount

def sameSource (p x : SourceSettings) : Bool :=
  p.id == x.id && p.type == x.type && p.channels == x.channels && p.output == x.output &&
    p.resource == x.resource && p.channelStart == x.channelStart &&
    count p.channels p.channelCount == count x.channels x.channelCount && p.alsaPcm == x.alsaPcm

def sameSink (p x : SinkSettings) : Bool :=
  p.id == x.id && p.type == x.type && p.channels == x.channels &&
    p.resource == x.resource && p.channelStart == x.channelStart &&
    count p.channels p.channelCount == count x.channels x.channelCount && p.alsaPcm == x.alsaPcm

def sameRoute (p x : RouteSettings) : Bool :=
  p.id == x.id && p.source == x.source && p.sink == x.sink

/-- Version 1 delays its endpoints, by up to five seconds. -/
def endpointDelay (version : ℕ) : ℕ := if version = 1 then 5 * rate else 0

def bufferBytes (channels frames : ℕ) : ℕ := channels * frames * 4

/-- What the frames of a route's delay line are, as allocated before where that is enough. -/
def routeCapacity (base : Option Graph) (channels : ℕ) (r : RouteSettings) : ℕ :=
  let capacity := r.delayMs * rate / 1000
  let old := base.bind fun g => g.routes.find? fun o => sameRoute o.settings r &&
    o.buffer.channels == channels && decide (capacity ≤ o.capacity)
  (old.map Graph.Route.capacity).getD capacity

/-- The channels of the source a route is from. -/
def routeChannels (s : AudioSettings) (r : RouteSettings) : ℕ :=
  ((s.sources.find? fun x => x.id = r.source).map SourceSettings.channels).getD 0

def requiredBytes (base : Option Graph) (s : AudioSettings) : ℕ :=
  let endpoint := s.engine.periodFrames + endpointDelay s.version + 1
  (s.sources.map fun x => bufferBytes x.channels endpoint).sum +
    (s.sinks.map fun x => bufferBytes x.channels endpoint).sum +
    (s.routes.map fun r => bufferBytes (routeChannels s r)
      (s.engine.periodFrames + routeCapacity base (routeChannels s r) r + 1)).sum

/-- The settings a graph is built for, from which it takes over, and which of those endpoints are
opened again. -/
structure Plan where
  base : Option Graph
  built : ℕ
  settings : AudioSettings
  reopenSources : List String := []
  reopenSinks : List String := []

namespace Plan

def allocated (p : Plan) (kind : Kind) (id : String) (channels : ℕ) : Buffer :=
  ⟨⟨p.built, kind, id⟩, channels, p.settings.engine.periodFrames⟩

/-- The delay line taken over or a new one. -/
def lineOf (p : Plan) (g : Graph) (delay : Address) (kind : Kind) (id : String) : Address :=
  if p.settings.version = g.settings.version then delay else ⟨p.built, kind, id⟩

/-- A source of the graph; none where its receiver is not there. -/
def makeSource (p : Plan) (env : Surroundings) (x : SourceSettings) :
    Except Refusal (Option Graph.Source) :=
  if x.type = "ndi" ∧ env.registered (if x.output = 0 then env.primary else x.output) = false then
    .ok none
  else
    let prior := if x.id ∈ p.reopenSources then none else p.base.bind fun g =>
      (g.sources.find? fun o => !o.placeholder && sameSource o.settings x).map fun o => (g, o)
    match prior with
    | some (g, o) => .ok (some { settings := x, placeholder := o.placeholder, buffer := o.buffer
                                 delay := p.lineOf g o.delay .source x.id })
    | none =>
      match env.openSource x with
      | .device placeholder => .ok (some
          { settings := x, placeholder, buffer := p.allocated .source x.id x.channels
            delay := ⟨p.built, .source, x.id⟩ })
      | .busy => .error (.busy x.id)
      | .failed error => .error (.failed error)

def makeSink (p : Plan) (env : Surroundings) (x : SinkSettings) : Except Refusal Graph.Sink :=
  let prior := if x.id ∈ p.reopenSinks then none else p.base.bind fun g =>
    (g.sinks.find? fun o => !o.placeholder && sameSink o.settings x).map fun o => (g, o)
  match prior with
  | some (g, o) => .ok { settings := x, placeholder := o.placeholder, buffer := o.buffer
                         delay := p.lineOf g o.delay .sink x.id }
  | none =>
    match env.openSink x with
    | .device placeholder => .ok
        { settings := x, placeholder, buffer := p.allocated .sink x.id x.channels
          delay := ⟨p.built, .sink, x.id⟩ }
    | .busy => .error (.busy x.id)
    | .failed error => .error (.failed error)

/-- A route of the graph; none where its source is not in it. -/
def makeRoute (p : Plan) (sources : List Graph.Source) (sinks : List Graph.Sink)
    (r : RouteSettings) : Except Refusal (Option Graph.Route) :=
  match sources.zipIdx.find? (fun e => e.1.settings.id = r.source),
      sinks.zipIdx.find? (fun e => e.1.settings.id = r.sink) with
  | none, _ => .ok none
  | some _, none => .error (.failed "route sink unavailable")
  | some (source, i), some (_, k) =>
    let capacity := routeCapacity p.base (routeChannels p.settings r) r
    match p.base.bind fun g => g.routes.find? fun o => sameRoute o.settings r &&
        o.capacity == capacity && o.buffer.channels == source.settings.channels with
    | some o => .ok (some { settings := r, source := i, sink := k, buffer := o.buffer
                            delay := o.delay, capacity, historyReset := false })
    | none => .ok (some { settings := r, source := i, sink := k
                          buffer := p.allocated .route r.id source.settings.channels
                          delay := ⟨p.built, .route, r.id⟩, capacity, historyReset := true })

/-- The graph that stays published until every endpoint is open has not changed so far. -/
def build (p : Plan) (env : Surroundings) : Except Refusal Graph := do
  let s := p.settings
  (staticChecks env.primary s).mapError .failed
  let required := requiredBytes p.base s
  let budget := s.engine.memoryBudgetMib * 1024 * 1024
  if s.version = 2 ∧ budget < required then .error (.resources required budget)
  else do
    let sources ← s.sources.mapM (p.makeSource env)
    let sinks ← s.sinks.mapM (p.makeSink env)
    let routes ← s.routes.mapM (p.makeRoute sources.reduceOption sinks)
    .ok (Graph.inputs power
      { settings := s, sources := sources.reduceOption, sinks, routes := routes.reduceOption })

end Plan

/-! ### The engine -/

/-- The fields of a version 1 graph that open endpoints can take. The master stays enabled. -/
def liveSubset (current requested : AudioSettings) : AudioSettings :=
  { current with
    videoDelayMs := requested.videoDelayMs
    sources := current.sources.map fun source =>
      (requested.sources.filter fun next => next.id = source.id).foldl (fun source next =>
        { source with enabled := next.enabled, delayMs := next.delayMs, gainDb := next.gainDb })
        source
    sinks := current.sinks.map fun sink =>
      (requested.sinks.filter fun next => next.id = sink.id).foldl (fun sink next =>
        { sink with
          enabled := next.enabled || sink.id == current.engine.master
          delayMs := next.delayMs
          mix := next.mix }) sink }

/-- `built` counts the graphs published so far. -/
structure Engine where
  graph : Option Graph := none
  built : ℕ := 0
  lines : Graph.Lines := fun _ => .new 0 0

namespace Engine

/-- A delay line that a graph came with. -/
def lineFor (g : Graph) (a : Address) : Option DelayLine :=
  match a.kind with
  | .source => (g.sources.find? fun s => s.delay = a).map fun s =>
      .new s.settings.channels (endpointDelay g.settings.version)
  | .sink => (g.sinks.find? fun s => s.delay = a).map fun s =>
      .new s.settings.channels (endpointDelay g.settings.version)
  | .route => (g.routes.find? fun r => r.delay = a).map fun r => .new r.buffer.channels r.capacity

def allocate (g : Graph) (built : ℕ) (lines : Graph.Lines) : Graph.Lines := fun a =>
  if a.built = built then (lineFor g a).getD (lines a) else lines a

/-- The thread that plays takes the graph over before its next period. -/
def publish (e : Engine) (g : Graph) : Engine where
  graph := some (g.adopt e.graph)
  built := e.built + 1
  lines := g.setDelays (allocate g e.built e.lines)

/-- A restart takes nothing over. -/
def plan (e : Engine) (s : AudioSettings) : Plan where
  base := e.graph.filter fun g => !needsRestart g.settings s
  built := e.built
  settings := s

/-- Where an endpoint is busy, a version 1 request takes effect as far as it can. -/
def apply (e : Engine) (env : Surroundings) (s : AudioSettings) : Engine :=
  match (e.plan s).build power env with
  | .ok g => e.publish g
  | .error (.busy _) =>
    match e.graph with
    | some old =>
      if s.version = 1 then
        match (e.plan (liveSubset old.settings s)).build power env with
        | .ok g => e.publish g
        | .error _ => e
      else e
    | none => e
  | .error _ => e

/-- The same graph without the devices that are to be opened again. -/
def transition (g : Graph) (sources sinks : List String) : Graph :=
  Graph.inputs power { g with
    sources := g.sources.map fun s =>
      { s with placeholder := s.placeholder || sources.contains s.settings.id }
    sinks := g.sinks.map fun s =>
      { s with placeholder := s.placeholder || sinks.contains s.settings.id } }

def recover (e : Engine) (env : Surroundings) (sources sinks : List String) : Engine :=
  match e.graph with
  | none => e
  | some g =>
    let e := e.publish (transition power g sources sinks)
    match Plan.build power
        { e.plan g.settings with reopenSources := sources, reopenSinks := sinks } env with
    | .ok g => e.publish g
    | .error _ => e

/-- Requests and recoveries, whatever their endpoints open to, and periods, whatever is heard. -/
inductive Step : Engine → Engine → Prop
  | apply (e : Engine) (env : Surroundings) (s : AudioSettings) : Step e (e.apply power env s)
  | recover (e : Engine) (env : Surroundings) (sources sinks : List String) :
    Step e (e.recover power env sources sinks)
  | period {e : Engine} {g : Graph} (hg : e.graph = some g) (lines : Graph.Lines)
    (processed : ∀ a ∈ g.processed, ∃ mem input out mem',
      input.frames = g.settings.engine.periodFrames ∧
        (e.lines a).process mem input out = some (lines a, mem'))
    (others : ∀ a ∉ g.processed, lines a = e.lines a) :
    Step e { e with graph := some g.period, lines }

def Reachable : Engine → Prop := Relation.ReflTransGen (Step power) {}

end Engine

end NdimonR.Decoder.AudioEngine
