import NdimonR.Decoder.Config

/-! The finder follows one domain, the NDI settings. -/

namespace NdimonR.Decoder

open Json

structure NdiFollower where
  revision : Revision := {}
  config : Option NdiConfig := none
  document : Json := .null
  deriving DecidableEq

namespace NdiFollower

/-- `apply` rebuilds the finder, where the document is a new one. -/
def rebuilt (apply : Option (NdiConfig → Bool)) (document : Json) (candidate : NdiConfig)
    (f : NdiFollower) : Bool :=
  match apply with
  | none => true
  | some apply => (f.config.isSome && f.document == document) || apply candidate

/-- The revision, the document and what it says. -/
def examine (request : Json) (apply : Option (NdiConfig → Bool)) (f : NdiFollower) :
    Result (Nat × Json × NdiConfig) := do
  let next ← f.revision.check request
  let domains ← atKey request "config"
  require (isObject domains && size domains == 1 && contains "ndi" domains)
    "config: finder accepts only the complete ndi domain"
  let document ← atKey domains "ndi"
  let candidate ← parseNdi document
  require (f.rebuilt apply document candidate) "ndi: finder recreation failed"
  .ok (next, document, candidate)

def applyConfig (request : Json) (apply : Option (NdiConfig → Bool)) :
    Proc NdiFollower String Nat := do
  let f ← Proc.read id
  let (next, document, candidate) ← Proc.ofExcept (f.examine request apply)
  Proc.modify fun f => { f with config := some candidate }
  Proc.modify fun f => { f with document }
  Proc.modify fun f => { f with revision := .commit next }
  pure next

theorem applyConfig_eq (request : Json) (apply : Option (NdiConfig → Bool)) (f : NdiFollower) :
    applyConfig request apply f =
      match f.examine request apply with
      | .ok (next, document, candidate) => (.ok next, ⟨.commit next, some candidate, document⟩)
      | .error e => (.err e, f) := by
  refine (Proc.bind_ok (p := Proc.read id) (t := f) rfl).trans ?_
  cases h : f.examine request apply with
  | ok d =>
    refine (Proc.bind_ok (p := Proc.ofExcept (f.examine request apply)) (t := f) (a := d) ?_).trans
      rfl
    rw [h]
    rfl
  | error e =>
    refine Proc.bind_err (p := Proc.ofExcept (f.examine request apply)) ?_
    rw [h]
    rfl

end NdiFollower

end NdimonR.Decoder
