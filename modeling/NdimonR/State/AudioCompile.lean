import NdimonR.Library.JsonText
import NdimonR.Render.AudioNodes
import NdimonR.State.AudioGraph
import NdimonR.Types.Wire

/-! Compiling the audio chosen for one output into the graph of all outputs. -/

namespace NdimonR.State.Audio

open NdimonR.Types Text Json

def invalid (reason : String) : ApiError := ApiError.ofErrors [⟨"audio", reason⟩]

def conflict (reason : String) : ApiError := .locked reason none

/-! ### Catalog entries -/

def startOf (v : Json) : Nat := (asU64 (v.member "channel_start")).getD 1

def countOf (v : Json) : Nat :=
  ((asU64 (v.member "channel_count")).or (asU64 (v.member "channels"))).getD 2

def overlap (a b : Json) : Bool :=
  (asStr (a.member "resource")).getD "" ≠ "" && a.member "resource" == b.member "resource" &&
    startOf a < (startOf b + countOf b) % 2 ^ 64 && startOf b < (startOf a + countOf a) % 2 ^ 64

def resolve (catalog : Json) (direction id : String) : Except ApiError Json :=
  match ((asArray (catalog.member direction)).getD []).find? fun v => v.member "id" == .str id with
  | some v => .ok v
  | none => .error (invalid s!"unknown audio endpoint: {id}")

def known (entry : Json) : Bool := entry.member "provider" ≠ .str "unknown"

/-- The node an entry stands for. -/
def nodeId (entry : Json) : Option String :=
  (asStr (entry.member "node_id")).or (asStr (entry.member "id"))

/-- The document a node is made from. -/
def concrete (entry : Json) : Json :=
  let common := [("enabled", .bool true), ("channels", entry.member "channels"),
    ("endpoint", entry.member "id")]
  if entry.member "provider" = .str "ndi" then
    ofMembers (common ++ [("type", .str "ndi"), ("output", entry.member "output")])
  else
    ofMembers (common ++ [("type", .str "alsa"), ("alsa_pcm", entry.member "alsa_pcm"),
      ("resource", entry.member "resource"),
      ("channel_start", (get "channel_start" entry).getD (.int 1)),
      ("channel_count", entry.member "channels")])

section
variable (floatText : ℚ → String)

def identity (v : Json) : String :=
  let text := fun key => (v.member key).render floatText
  if v.member "provider" = .str "ndi" then "ndi:" ++ text "output"
  else if (asStr (v.member "resource")).any (· ≠ "") then
    text "resource" ++ ":" ++ toString (startOf v) ++ ":" ++ text "channels"
  else "alsa:" ++ text "alsa_pcm"

/-- Selections of one direction: none twice, and none on channels of another. -/
def checkSelection : List Json → List Json → Except ApiError Unit
  | _, [] => .ok ()
  | seen, a :: rest =>
    if seen.any fun b => identity floatText b = identity floatText a then
      .error (conflict ("duplicate canonical endpoint selection: " ++
        (asStr (a.member "label")).getD ""))
    else if seen.any (overlap a) then .error (conflict "overlapping channel selections")
    else checkSelection (seen ++ [a]) rest

end

/-! ### The selection's signature -/

def inputKey (catalog : Json) (i : AudioInput) : Except ApiError (String × ℚ) := do
  let v ← resolve catalog "inputs" i.endpoint
  .ok ((asStr (v.member "node_id")).getD i.endpoint, i.gainDb)

def destinationKey (catalog : Json) (d : AudioDestination) : Except ApiError String := do
  let v ← resolve catalog "destinations" d.endpoint
  .ok ((asStr (v.member "node_id")).getD d.endpoint)

def keyLe (a b : String × ℚ) : Bool := a.1 < b.1 || (a.1 == b.1 && decide (a.2 ≤ b.2))

def signature (catalog : Json) (out : OutputAudio) :
    Except ApiError (List (String × ℚ) × List String) := do
  let inputs ← out.inputs.mapM (inputKey catalog)
  let sinks ← out.destinations.mapM (destinationKey catalog)
  .ok (inputs.mergeSort keyLe, sinks.mergeSort (· ≤ ·))

def sameSelection (catalog : Json) (previous : Option OutputAudio) (choice : OutputAudio) :
    Except ApiError Bool :=
  match previous with
  | none => .ok false
  | some p => do
    let a ← signature catalog p
    let b ← signature catalog choice
    .ok (decide (a = b))

/-! ### Nodes -/

structure Draft where
  audio : Types.Audio
  choice : OutputAudio

def entryId (entry : Json) : Except ApiError String :=
  match nodeId entry with
  | some id => .ok id
  | none => .error (invalid "endpoint identity missing")

def asInvalid {α : Type} (x : Except String α) : Except ApiError α :=
  match x with
  | .ok a => .ok a
  | .error e => .error (invalid e)

/-- The node for an entry: the graph's own, switched on, or else a fresh one. -/
def pickNode {Node : Type} (channels : Node → Nat) (enable : Node → Node)
    (fresh : String → Except String Node) (nodes : SortedMap String Node) (entry : Json) :
    Except ApiError (String × Node) := do
  let id ← entryId entry
  let node ← asInvalid (fresh id)
  match nodes.get? id with
  | none => .ok (id, node)
  | some existing =>
    if channels existing ≠ channels node then
      .error (conflict s!"shared endpoint geometry differs: {id}")
    else .ok (id, enable existing)

def enableSource (s : AudioSource) : AudioSource := { s with enabled := true }

def enableSink (s : AudioSink) : AudioSink := { s with enabled := true }

def addSource (output : OutputId) (d : Draft) (entry : Json) : Except ApiError Draft := do
  let (id, node) ← pickNode (·.channels) enableSource
    (fun id => Render.Audio.source (concrete entry) id output) d.audio.sources entry
  .ok {
    choice := { d.choice with definitions := { d.choice.definitions with
      sources := d.choice.definitions.sources.insert id node } }
    audio := if d.choice.enabled && known entry then
        { d.audio with sources := d.audio.sources.insert id node }
      else d.audio }

def addSink (output : OutputId) (d : Draft) (entry : Json) : Except ApiError Draft := do
  let (id, node) ← pickNode (·.channels) enableSink
    (fun id => Render.Audio.sink (concrete entry) id output) d.audio.sinks entry
  .ok {
    choice := { d.choice with definitions := { d.choice.definitions with
      sinks := d.choice.definitions.sinks.insert id node } }
    audio := if d.choice.enabled && known entry then
        { d.audio with sinks := d.audio.sinks.insert id node }
      else d.audio }

/-! ### Routes -/

/-- The gain the first engine's factors amount to. -/
def factoredGain (gain mix : ℚ) : ℚ := if gain ≤ -60 ∨ mix ≤ -60 then -60 else gain + mix

/-- A kept matrix gives its routes the gain they had, as routes or as retained factors. -/
def keptGain (before : Types.Audio) (previous : OutputAudio) (output : OutputId) (i : AudioInput)
    (d : AudioDestination) (source sink : String) : ℚ :=
  match before.routes.values.find? fun r =>
      r.output == output && r.source == source && r.sink == sink with
  | some prior => prior.gainDb
  | none =>
    match previous.definitions.sources.entries.find? fun e => e.2.endpoint == i.endpoint,
        previous.definitions.sinks.entries.find? fun e => e.2.endpoint == d.endpoint with
    | some («alias», s), some (_, t) =>
      match t.mix.get? «alias» with
      | some mix => factoredGain s.gainDb mix
      | none => i.gainDb
    | _, _ => i.gainDb

structure RouteContext where
  digest : String → String
  before : Types.Audio
  previous : Option OutputAudio
  output : OutputId
  same : Bool

def routeGain (ctx : RouteContext) (i : AudioInput) (d : AudioDestination) (source sink : String) :
    ℚ :=
  match ctx.previous with
  | some previous =>
    if ctx.same && previous.legacyMatrix then
      keptGain ctx.before previous ctx.output i d source sink
    else i.gainDb
  | none => i.gainDb

/-- The route of one input and one destination, unless an endpoint's provider is unknown. -/
def addRoute (ctx : RouteContext) (routes : SortedMap String AudioRoute)
    (pair : (AudioInput × Json) × (AudioDestination × Json)) :
    Except ApiError (SortedMap String AudioRoute) := do
  let ((i, input), (d, dest)) := pair
  if i.delayMs + d.delayMs > 5000 then .error (invalid "effective delay exceeds5000ms")
  else if !known input || !known dest then .ok routes
  else do
    let sid ←
      match nodeId input with
      | some id => .ok id
      | none => .error (invalid "source id missing")
    let tid ←
      match nodeId dest with
      | some id => .ok id
      | none => .error (invalid "sink id missing")
    .ok (routes.insert (routeId ctx.digest ctx.output sid tid)
      { AudioRoute.new ctx.output sid tid with
        delayMs := i.delayMs + d.delayMs
        gainDb := routeGain ctx i d sid tid })

def addRoutes (ctx : RouteContext) (choice : OutputAudio) (inputs destinations : List Json)
    (routes : SortedMap String AudioRoute) : Except ApiError (SortedMap String AudioRoute) :=
  if choice.enabled then
    ((choice.inputs.zip inputs) ×ˢ (choice.destinations.zip destinations)).foldlM
      (addRoute ctx) routes
  else .ok routes

/-! ### The whole -/

/-- An unchanged selection keeps its matrix flag and its retained factors. -/
def retained (previous : Option OutputAudio) (choice : OutputAudio) : OutputAudio :=
  match previous with
  | none => choice
  | some previous =>
    let kept := { choice with legacyMatrix := previous.legacyMatrix }
    if previous.definitions.sources.contains "ndi" then
      { kept with definitions :=
        { sources := previous.definitions.sources.mapValues fun _ s =>
            match kept.inputs.find? fun i => i.endpoint == s.endpoint with
            | some i => { s with delayMs := i.delayMs }
            | none => s
          sinks := previous.definitions.sinks.mapValues fun _ s =>
            match kept.destinations.find? fun d => d.endpoint == s.endpoint with
            | some d => { s with delayMs := d.delayMs }
            | none => s } }
    else kept

/-- A route that plays. -/
def routed (audio : Types.Audio) (r : AudioRoute) : Bool :=
  r.enabled && (audio.outputs.get? r.output).any (·.enabled)

def refreshMaster (audio : Types.Audio) : String :=
  let routes := audio.routes.values
  if routes.any fun r => r.sink = audio.settings.master then audio.settings.master
  else
    (((routes.find? fun r => (audio.sinks.get? r.sink).any fun s =>
        startsWithText "hdmi:" s.resource).or routes.head?).map (·.sink)).getD ""

/-- Keeps the routes that play, the nodes they use and a master among them. -/
def refresh (audio : Types.Audio) : Types.Audio :=
  let audio := { audio with routes := audio.routes.filter fun _ r => routed audio r }
  if audio.routes.isEmpty then
    { audio with
      sources := .empty
      sinks := .empty
      settings := { audio.settings with master := "" } }
  else
    let master := refreshMaster audio
    { audio with
      settings := { audio.settings with master }
      sources := (audio.sources.filter fun id _ => audio.routes.values.any fun r => r.source = id)
        |>.mapValues fun _ => enableSource
      sinks := (audio.sinks.filter fun id _ =>
          (audio.routes.values.any fun r => r.sink = id) || id = master)
        |>.mapValues fun _ => enableSink }

def matrixUnconfirmed : ApiError := conflict "matrix_confirmation_required"

/-- What is compiled: the choice as it will play and the entries it selects. -/
def settle (before : Types.Audio) (output : OutputId) (choice : OutputAudio) : OutputAudio :=
  { choice with
    enabled := choice.enabled && !choice.inputs.isEmpty && !choice.destinations.isEmpty
    primary := (before.outputs.get? output).any (·.primary) }

def compileOutput (digest : String → String) (floatText : ℚ → String) (original : Types.Audio)
    (output : OutputId) (choice : OutputAudio) (normalize : Bool) (catalog : Json) :
    Except ApiError Types.Audio :=
  if ¬(1 ≤ output ∧ output ≤ 8) then .error (invalid "output must be1..8")
  else do
    let before := canonicalize digest original
    let choice := settle before output choice
    let inputs ← choice.inputs.mapM fun i => resolve catalog "inputs" i.endpoint
    let destinations ← choice.destinations.mapM fun d => resolve catalog "destinations" d.endpoint
    checkSelection floatText [] inputs
    checkSelection floatText [] destinations
    let previous := before.outputs.get? output
    let same ← sameSelection catalog previous choice
    if (previous.any (·.legacyMatrix)) && !same && !normalize then .error matrixUnconfirmed
    else do
      let others := { before with routes := before.routes.filter fun _ r => r.output ≠ output }
      let draft ← inputs.foldlM (addSource output) ⟨others, choice⟩
      let draft ← destinations.foldlM (addSink output) draft
      let routes ← addRoutes ⟨digest, before, previous, output, same⟩ choice inputs destinations
        draft.audio.routes
      let saved := if same then retained previous draft.choice else draft.choice
      .ok (refresh { draft.audio with routes, outputs := draft.audio.outputs.insert output saved })

end NdimonR.State.Audio
