import NdimonR.Engine.Journal
import NdimonR.Library.Lines

/-! What the backends share: refusals, the interfaces of a profile and the search list of a row. -/

namespace NdimonR.Backend

open Types Text Engine

abbrev Result := Except ApiError

/-- `unrepresentable_configuration` naming the offending key. -/
def unrepresentable (key : String) : ApiError :=
  unsupported ("unrepresentable_configuration: " ++ key)

/-- The error, where the condition holds. -/
def refuse (condition : Bool) (error : ApiError) : Result Unit :=
  if condition then .error error else .ok ()

@[simp] theorem refuse_eq_ok {condition : Bool} {error : ApiError} {u : Unit} :
    refuse condition error = .ok u ↔ condition = false := by
  cases condition <;> simp [refuse]

/-- A list or entry the row cannot hold is refused, never trimmed. -/
def searchList (values : List String) (key : String) : Result (List String) :=
  if maxDnsSearch < values.length ∨ values.any fun d => !validDnsSearchDomain d then
    .error (unrepresentable key)
  else .ok values

/-- The port and its VLAN interfaces. -/
def names (p : NetworkProfiles) : List String :=
  p.interface :: (p.networks.filter (·.vlanId.isSome)).map (ifname p)

/-- The row adoption starts from. -/
def dhcpRow : NetworkProfile := { id := "untagged", name := "Untagged" }

end NdimonR.Backend
