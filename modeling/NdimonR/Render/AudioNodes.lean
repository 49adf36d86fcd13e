import NdimonR.Library.Outcome
import NdimonR.Library.Reading
import NdimonR.Types.Model

/-! Audio nodes as they are read from JSON. Members of another type count as missing, except
numbers, which must be unsigned. -/

namespace NdimonR.Types

def AudioSource.alsa (pcm : String) (channels : Nat) : AudioSource :=
  { AudioSource.ndi 1 with
    kind := .alsa
    output := none
    alsaPcm := some pcm
    channels := channels
    channelCount := channels
    endpoint := "" }

end NdimonR.Types

namespace NdimonR.Render.Audio

open NdimonR.Types Json

def text (j : Json) (key fallback : String) : String := ((get key j).bind asStr).getD fallback

def num (j : Json) (key : String) (default : Nat) : Except String Nat :=
  match get key j with
  | none => .ok default
  | some v =>
    match natBelow (2 ^ 32) v with
    | some n => .ok n
    | none => .error s!"{key} must be an unsigned integer"

/-- Conversion to a narrower integer type. -/
def narrow (bound n : Nat) : Except String Nat :=
  if n < bound then .ok n else .error "out of range integral type conversion attempted"

def enabled (j : Json) : Bool :=
  match get "enabled" j with
  | some (.bool b) => b
  | _ => true

def asF64 : Json → Option ℚ
  | .int n => some n
  | .float q => some q
  | _ => none

def source (value : Json) (id : String) (p : OutputId) : Except String AudioSource := do
  let channels ← num value "channels" 2
  let channels ← narrow 65536 channels
  let base ←
    if text value "type" "alsa" = "ndi" then do
      let output ← num value "output" p
      let output ← narrow 256 output
      .ok (AudioSource.ndi output)
    else if text value "type" "alsa" = "alsa" then
      .ok (AudioSource.alsa (text value "alsa_pcm" "auto") channels)
    else .error "source type must be ndi or alsa"
  let count ← num value "channel_count" channels
  let channelCount ← narrow 65536 count
  let channelStart ← num value "channel_start" 1
  let delayMs ← num value "delay_ms" 0
  let node : AudioSource := { base with
    channels
    channelCount
    enabled := enabled value
    channelStart
    gainDb := ((get "gain_db" value).bind asF64).getD 0
    delayMs
    endpoint := text value "endpoint" (if base.kind = .ndi then base.endpoint else id)
    resource := text value "resource" "" }
  if node.alsaPcm = some "ndimon_net_in" then
    .ok { node with
      resource := if (get "resource" value).isNone then "tessera:main:rx" else node.resource
      endpoint := if (get "endpoint" value).isNone then s!"tessera-rx-1-{channels}"
        else node.endpoint }
  else .ok node

/-- Gains by source; the decoder refuses what is no object of numbers. -/
def mix (value : Json) : Except String (SortedMap String ℚ) :=
  match asObject value with
  | none => .error "invalid type, expected a map"
  | some members =>
    match members.mapM fun e => (asF64 e.2).map fun gain => (e.1, gain) with
    | none => .error "invalid type, expected f64"
    | some gains => .ok (SortedMap.ofList gains)

def sink (value : Json) (id : String) (p : OutputId) : Except String AudioSink := do
  let channels ← num value "channels" 2
  let channels ← narrow 65536 channels
  let pcm := text value "alsa_pcm" "auto"
  let delayMs ← num value "delay_ms" 0
  let channelStart ← num value "channel_start" 1
  let count ← num value "channel_count" channels
  let channelCount ← narrow 65536 count
  let endpoint := text value "endpoint" id
  let resource := text value "resource" ""
  let hdmi := id = "hdmi" ∧ pcm = "auto"
  let net := pcm = "ndimon_net_out"
  let node : AudioSink := { AudioSink.new pcm channels with
    enabled := enabled value
    delayMs
    channelStart
    channelCount
    endpoint := if (get "endpoint" value).isNone then
        if hdmi then s!"hdmi-{p}" else if net then s!"tessera-tx-1-{channels}" else endpoint
      else endpoint
    resource := if (get "resource" value).isNone then
        if hdmi then s!"hdmi:{p}" else if net then "tessera:main:tx" else resource
      else resource }
  match get "mix" value with
  | none => .ok node
  | some gains => do
    let gains ← mix gains
    .ok { node with mix := gains }

end NdimonR.Render.Audio
