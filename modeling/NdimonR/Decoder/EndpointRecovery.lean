import NdimonR.Decoder.LiveChanges

/-! The control side of the audio engine: which displays are there, and how failed endpoints and a
master that misses its periods are opened again. -/

namespace NdimonR.Decoder.AudioEngine

open Json Text

variable (power : ℚ → ℚ)

/-- What the factory of an endpoint does when it is asked: it gives a device, which may be ready,
one that stands for what is not there, or none. -/
inductive Made where
  | ready
  | unready
  | unavailable
  | busy
  | throws (error : String)
  | null
  deriving DecidableEq

/-- No device comes of it. -/
def Made.refuses : Made → Bool
  | .busy | .throws _ | .null => true
  | _ => false

/-- A recovery takes a device as it is. -/
def Made.opened (null : String) : Made → Opened
  | .ready | .unready => .device false
  | .unavailable => .device true
  | .busy => .busy
  | .throws error => .failed error
  | .null => .failed null

structure Factories where
  source : SourceSettings → Made
  sink : SinkSettings → Made

/-- A call of `set_master_fallback`, when it is made and what the factories do in it. -/
structure Call where
  output : ℕ
  present : Bool
  now : ℤ
  factories : Factories

/-- The engine under its control lock. A device is told by the buffer it was opened with. -/
structure Control where
  engine : Engine := {}
  ready : Address → Bool := fun _ => false
  primaryOutput : ℕ := 1
  registered : ℕ → Bool := fun _ => true
  displayPresent : ℕ → Bool := fun _ => true
  masterOutput : ℕ := 0
  hdmiPresent : Bool := true
  reopenRequested : Bool := false
  nextRecovery : ℤ := 0
  settingsError : String := ""

def Refusal.text : Refusal → String
  | .busy _ => "device busy: structural change needs a core restart"
  | .resources requested budget => "audio graph requires " ++ toString requested ++
      " bytes; budget " ++ toString budget ++ " bytes"
  | .failed error => error

def recoveryFailed : String := "audio endpoint recovery failed: "

namespace Graph

/-- The sink that gives the clock. -/
def master (g : Graph) : Option Sink :=
  g.sinks.find? fun k => k.settings.id = g.settings.engine.master && k.settings.enabled

end Graph

namespace Control

/-- A placeholder is never ready. -/
def sourceReady (s : Control) (o : Graph.Source) : Bool := !o.placeholder && s.ready o.buffer.address

def sinkReady (s : Control) (k : Graph.Sink) : Bool := !k.placeholder && s.ready k.buffer.address

def hdmi (s : Control) (k : Graph.Sink) : ℕ := hdmiOutput k.settings s.primaryOutput

def surroundings (f : Factories) (s : Control) : Surroundings where
  primary := s.primaryOutput
  registered := s.registered
  openSource x := (f.source x).opened ("source factory returned null: " ++ x.id)
  openSink x := (f.sink x).opened ("sink factory returned null: " ++ x.id)

/-- A graph was taken over: where its master plays, and whether that display is there. -/
def follow (s : Control) : Control :=
  let masterOutput := ((s.engine.graph.bind Graph.master).map s.hdmi).getD 0
  { s with
    masterOutput
    hdmiPresent := masterOutput = 0 || s.displayPresent masterOutput }

/-! ### Requests -/

/-- `apply_locked` for a request. -/
def apply (env : Surroundings) (settings : AudioSettings) (s : Control) : Control :=
  let env := { env with
    primary := s.primaryOutput
    registered := s.registered }
  let engine := s.engine.apply power env settings
  if engine.built = s.engine.built then s else { s with engine }.follow

/-- The primary output is selected before the first graph. -/
def setPrimaryOutput (output : ℕ) (s : Control) : Control :=
  if output < 1 ∨ 8 < output ∨ s.engine.graph.isSome then s else { s with primaryOutput := output }

/-- A receiver is revoked; its source leaves the graph where that can be built. -/
def unregisterNdi (env : Surroundings) (output : ℕ) (s : Control) : Control :=
  if output < 1 ∨ 8 < output ∨ s.registered output = false then s
  else
    let s := { s with registered := Function.update s.registered output false }
    match s.engine.graph with
    | none => s
    | some g => s.apply power env g.settings

/-! ### Recovery -/

def displays (c : Call) (s : Control) : ℕ → Bool :=
  Function.update s.displayPresent c.output c.present

/-- The display of the call was not there before it. -/
def appears (c : Call) (s : Control) : Bool := c.present && !s.displayPresent c.output

def masterPresent (c : Call) (s : Control) : Bool :=
  s.masterOutput = 0 || s.displays c s.masterOutput

def retryDue (c : Call) (s : Control) : Bool := s.nextRecovery ≤ c.now

/-- The master missed a period, or its display is back. -/
def masterReopens (c : Call) (s : Control) : Bool :=
  s.masterPresent c &&
    (s.reopenRequested && s.retryDue c || s.masterOutput ≠ 0 && !s.hdmiPresent)

/-- The sinks that are opened again. -/
def targets (c : Call) (g : Graph) (s : Control) : List String :=
  let master := if s.masterReopens c then g.master.toList else []
  let appeared := if s.appears c then g.sinks.filter fun k => k.settings.enabled &&
      k.settings.id ≠ g.settings.engine.master && s.hdmi k = c.output && !s.sinkReady k
    else []
  let failed := if s.retryDue c && g.settings.engine.enabled then g.sinks.filter fun k =>
      k.settings.enabled && (s.hdmi k = 0 || s.displays c (s.hdmi k)) && !s.sinkReady k
    else []
  (master ++ appeared ++ failed).map fun k => k.settings.id

/-- The sources that are opened again. -/
def sourceTargets (c : Call) (g : Graph) (s : Control) : List String :=
  if s.retryDue c && g.settings.engine.enabled then
    (g.sources.filter fun o => o.settings.enabled && o.selected && !s.sourceReady o).map
      fun o => o.settings.id
  else []

/-- What the call has noted before it opens anything. -/
def noted (c : Call) (s : Control) : Control :=
  let s' := { s with
    displayPresent := s.displays c
    hdmiPresent := s.masterPresent c }
  match s.engine.graph with
  | none => s'
  | some g =>
    { s' with
      reopenRequested := false
      nextRecovery := if s.retryDue c && g.settings.engine.enabled then c.now + 2000000000
        else s.nextRecovery }

/-- The graph without the failed devices plays, and these are closed. -/
def released (sources sinks : List String) (g : Graph) (s : Control) : Control :=
  { s with engine := s.engine.publish (Engine.transition power g sources sinks) }

/-- What every endpoint of the released graph is opened by. -/
def recoveryPlan (sources sinks : List String) (g : Graph) (s : Control) : Plan :=
  { s.engine.plan g.settings with
    reopenSources := sources
    reopenSinks := sinks }

/-- Whether the devices opened with a graph are ready. -/
def freshReady (f : Factories) (g : Graph) (a : Address) : Bool :=
  match a.kind with
  | .source => (g.sources.find? fun o => o.settings.id = a.id).any fun o =>
      f.source o.settings = .ready
  | .sink => (g.sinks.find? fun k => k.settings.id = a.id).any fun k => f.sink k.settings = .ready
  | .route => false

def recover (f : Factories) (sources sinks : List String) (g : Graph) (s : Control) : Control :=
  let s := s.released power sources sinks g
  match (s.recoveryPlan sources sinks g).build power (s.surroundings f) with
  | .ok next =>
    { s with
      engine := s.engine.publish next
      ready := fun a => if a.built = s.engine.built then freshReady f next a else s.ready a
      settingsError := if (stripPrefix recoveryFailed s.settingsError).isSome then ""
        else s.settingsError }.follow
  | .error refusal => { s with settingsError := recoveryFailed ++ refusal.text }

def setMasterFallback (c : Call) (s : Control) : Control :=
  if c.output < 1 ∨ 8 < c.output then s
  else
    match s.engine.graph with
    | none => s.noted c
    | some g =>
      let targets := s.targets c g
      let sourceTargets := s.sourceTargets c g
      if targets = [] ∧ sourceTargets = [] then s.noted c
      else (s.noted c).recover power c.factories sourceTargets targets g

end Control

/-- Calls, devices that fail or come back, and periods; a period may miss the master. -/
inductive Event : Control → Control → Prop
  | call (s : Control) (c : Call) : Event s (s.setMasterFallback power c)
  | devices (s : Control) (ready : Address → Bool) : Event s { s with ready }
  | period {s : Control} {g : Graph} (hg : s.engine.graph = some g) (lines : Graph.Lines)
    (processed : ∀ a ∈ g.processed, ∃ mem input out mem',
      input.frames = g.settings.engine.periodFrames ∧
        (s.engine.lines a).process mem input out = some (lines a, mem'))
    (others : ∀ a ∉ g.processed, lines a = s.engine.lines a) (missed : Bool) :
    Event s { s with
      engine := { s.engine with
        graph := some g.period
        lines }
      reopenRequested := s.reopenRequested ||
        missed && g.settings.engine.enabled && s.hdmiPresent && g.master.isSome }

/-- Events and requests. -/
inductive Control.Step : Control → Control → Prop
  | event {s s' : Control} (h : Event power s s') : Step s s'
  | apply (s : Control) (env : Surroundings) (settings : AudioSettings) :
    Step s (s.apply power env settings)
  | setPrimaryOutput (s : Control) (output : ℕ) : Step s (s.setPrimaryOutput output)
  | unregisterNdi (s : Control) (env : Surroundings) (output : ℕ) :
    Step s (s.unregisterNdi power env output)

def Control.Reachable : Control → Prop := Relation.ReflTransGen (Control.Step power) {}

end NdimonR.Decoder.AudioEngine
