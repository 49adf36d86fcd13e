import NdimonR.Types.Validation

/-! What the commands of the outputs make of the document. -/

namespace NdimonR.State.Outputs

open Types

def invalid (reason : String) : ApiError := .ofErrors [⟨"outputs", reason⟩]

def put (id : OutputId) (change : Output → Output) (state : DesiredState) :
    Except ApiError DesiredState :=
  if 1 ≤ id ∧ id ≤ 8 then
    .ok { state with outputs := state.outputs.insert id (change ((state.outputs.get? id).getD {})) }
  else .error (invalid "output must be 1–8")

def savedSource (state : DesiredState) (id : OutputId) : Option NdiSourceRef :=
  (state.outputs.get? id).bind (·.source)

/-- In a document that is otherwise the default; no number of it is a float. -/
def validEndpoint (value : String) : Bool :=
  value ≠ "" && (validationErrors (fun _ => 1)
    { outputs := .singleton 1 { source := some ⟨"source", value⟩ } }).isEmpty

def enableAudio (e : OutputId × Bool) (state : DesiredState) : Except ApiError DesiredState := do
  let state ← put e.1 id state
  match state.audio.outputs.get? e.1 with
  | some out => .ok { state with audio := { state.audio with
      outputs := state.audio.outputs.insert e.1 { out with enabled := e.2 } } }
  | none =>
    if e.2 then
      .error (invalid "configure audio endpoints before enabling output audio")
    else .ok state

/-- The commands that the module handles; of any other it says that it does not. -/
def reduce (state : DesiredState) : Command → Except ApiError DesiredState
  | .putOutputSettings outputs ndi audioEnabled => do
    let state ← outputs.entries.foldlM (fun state e => put e.1 (fun _ => e.2) state) state
    audioEnabled.entries.foldlM (fun state e => enableAudio e state)
      { state with ndi := ndi.getD state.ndi }
  | .selectSource id source =>
    put id (fun out => { out with source := some source, sourceSelection := "NDI" }) state
  | .forgetSource id => put id (fun out => { out with source := none }) state
  | .adoptRemoteSource id source =>
    if source.any fun s => s.name = "" ∨ s.name = "None" then .error (invalid "invalid source name")
    else put id (fun out => { out with
      source := source.map fun s => ⟨s.name, ""⟩
      sourceSelection := if source.isSome then "NDI" else out.sourceSelection }) state
  | .setOutputAlias id name => put id (fun out => { out with «alias» := Text.trim name }) state
  | .setOutputVideo id video => put id (fun out => { out with video }) state
  | .setScreenSaver id screensaver => put id (fun out => { out with screensaver }) state
  | .reconnectSource id =>
    if ¬(1 ≤ id ∧ id ≤ 8) then .error (invalid "output must be 1–8")
    else if savedSource state id = none then .error (invalid "no saved source")
    else .ok state
  | .retrySource id source =>
    if (savedSource state id).all (·.name ≠ source.name) then
      .error (invalid "saved source changed; cancel stale reconnect")
    else if source.endpoint ≠ "" ∧ !validEndpoint source.endpoint then
      .error (invalid "invalid source IPv4 endpoint")
    else .ok state
  | .captureFrame _ => .error (.unsupported "frame capture has no decoder consumer")
  | _ => .error (invalid "unsupported output command")

end NdimonR.State.Outputs
