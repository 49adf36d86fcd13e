import NdimonR.Library.Reading
import NdimonR.Types.Encode
import NdimonR.Engine.Validation
import NdimonR.Engine.Journal

/-! The network intent two products exchange in a handoff: its conversions from and to the profiles
of the document, and its wire form. -/

namespace NdimonR.Engine

open Types Json

inductive Ipv4 where
  | dhcp
  | static (address : String) (prefixLen : Nat) (gateway : Option String) (dns : List String)
  deriving DecidableEq

structure Network where
  id : String
  name : String
  vlanId : Option Nat
  ipv4 : Ipv4
  dnsSearch : List String
  deriving DecidableEq

structure Policies where
  confirm : ConfirmPolicy
  deriving DecidableEq

structure Intent where
  version : Nat
  revision : Nat
  interface : String
  backend : NetworkBackend
  networks : List Network
  management : String
  audio : String
  ndi : Option String
  policies : Policies
  deriving DecidableEq

namespace Intent

/-- An empty gateway is sent as null. -/
def ofRow (n : NetworkProfile) : Network :=
  { id := n.id, name := n.name, vlanId := n.vlanId
    ipv4 :=
      match n.mode with
      | .dhcp => .dhcp
      | .static =>
        .static n.address n.prefixLen (if n.gateway = "" then none else some n.gateway) n.dns
    dnsSearch := n.dnsSearch }

def fromProfiles (p : NetworkProfiles) (revision : Nat) : Except ApiError Intent :=
  match p.backend with
  | none => .error (unsupported "unrepresentable_configuration")
  | some backend =>
    .ok
      { version := 1, revision, interface := p.interface, backend
        networks := p.networks.map ofRow
        management := p.roles.management, audio := p.roles.audio, ndi := some p.roles.ndi
        policies := ⟨p.confirmPolicy⟩ }

def row (n : Network) : NetworkProfile :=
  let dhcp : NetworkProfile :=
    { id := n.id, name := n.name, vlanId := n.vlanId, dnsSearch := n.dnsSearch }
  match n.ipv4 with
  | .dhcp => dhcp
  | .static address prefixLen gateway dns =>
    { dhcp with mode := .static, address, prefixLen, gateway := gateway.getD "", dns }

/-- A product without the NDI role is given it on its audio path. -/
def unchecked (i : Intent) : NetworkProfiles :=
  { interface := i.interface, backend := some i.backend, networks := i.networks.map row
    roles := { management := i.management, ndi := i.ndi.getD i.audio, audio := i.audio }
    confirmPolicy := i.policies.confirm }

def profiles (i : Intent) (product : NetworkProduct) : Except ApiError NetworkProfiles :=
  if i.version ≠ 1 ∨ (product = .ndimon ∧ i.ndi = none) ∨ (product = .tessera ∧ i.ndi ≠ none) then
    .error (unsupported "unrepresentable_configuration")
  else
    let p := i.unchecked
    match validate p p with
    | .error _ => .error (unsupported "unrepresentable_configuration")
    | .ok normalized =>
      if normalized ≠ p then .error (unsupported "unrepresentable_configuration") else .ok p

end Intent

/-! ### The wire form -/

def ipv4Json : Ipv4 → Value
  | .dhcp => .object [("mode", .str "dhcp")]
  | .static address prefixLen gateway dns =>
    .object
      [("mode", .str "static"), ("address", .str address), ("prefix", .nat prefixLen),
        ("gateway", ofOption .str gateway), ("dns", ofItems .str dns)]

def networkFields : Fields Network :=
  [("id", present .str (·.id)),
    ("name", present .str (·.name)),
    ("vlan_id", present (ofOption .nat) (·.vlanId)),
    ("ipv4", present ipv4Json (·.ipv4)),
    ("dns_search", nonempty .str (·.dnsSearch))]

def networkJson : Network → Value := record networkFields

def policiesJson (p : Policies) : Value := .object [("confirm", named ConfirmPolicy.text p.confirm)]

def intentFields : Fields Intent :=
  [("version", present .nat (·.version)),
    ("revision", present .nat (·.revision)),
    ("interface", present .str (·.interface)),
    ("backend", present (named NetworkBackend.text) (·.backend)),
    ("networks", present (ofItems networkJson) (·.networks)),
    ("management", present .str (·.management)),
    ("audio", present .str (·.audio)),
    ("ndi", optional .str (·.ndi)),
    ("policies", present policiesJson (·.policies))]

def intentJson : Intent → Value := record intentFields

def allBackends : List NetworkBackend := [.networkmanager, .networkd, .netplan, .ifupdown]

def allPolicies : List ConfirmPolicy := [.requireManagementAddress, .tokenOnly]

def allModes : List AddressMode := [.dhcp, .static]

def decodeIpv4 (j : Json) : Option Ipv4 := do
  let mode ← need asStr "mode" j
  if mode = "dhcp" then do
    closed ["mode"] j
    pure .dhcp
  else if mode = "static" then do
    closed ["mode", "address", "prefix", "gateway", "dns"] j
    let address ← need asStr "address" j
    let prefixLen ← need (natBelow 256) "prefix" j
    let gateway ← need (nullable asStr) "gateway" j
    let dns ← need (items asStr) "dns" j
    pure (.static address prefixLen gateway dns)
  else none

def decodeNetwork (j : Json) : Option Network := do
  closed ["id", "name", "vlan_id", "ipv4", "dns_search"] j
  let id ← need asStr "id" j
  let name ← need asStr "name" j
  let vlanId ← need (nullable (natBelow 65536)) "vlan_id" j
  let ipv4 ← need decodeIpv4 "ipv4" j
  let dnsSearch ← defaulted (items asStr) [] "dns_search" j
  pure { id, name, vlanId, ipv4, dnsSearch }

def decodePolicies (j : Json) : Option Policies := do
  closed ["confirm"] j
  let confirm ← need (oneOf ConfirmPolicy.text allPolicies) "confirm" j
  pure ⟨confirm⟩

/-- The NDI role may be left out, but not be null. -/
def decodeIntent (j : Json) : Option Intent := do
  closed ["version", "revision", "interface", "backend", "networks", "management", "audio", "ndi",
    "policies"] j
  let version ← need (natBelow 4294967296) "version" j
  let revision ← need (natBelow 18446744073709551616) "revision" j
  let interface ← need asStr "interface" j
  let backend ← need (oneOf NetworkBackend.text allBackends) "backend" j
  let networks ← need (items decodeNetwork) "networks" j
  let management ← need asStr "management" j
  let audio ← need asStr "audio" j
  let ndi ← defaulted (fun x => (asStr x).map some) none "ndi" j
  let policies ← need decodePolicies "policies" j
  pure { version, revision, interface, backend, networks, management, audio, ndi, policies }

/-! ### Decoding what was encoded -/

theorem decodeIpv4_json {a : Ipv4}
    (h : ∀ address prefixLen gateway dns, a = .static address prefixLen gateway dns →
      prefixLen < 256) : decodeIpv4 (ipv4Json a).val = some a := by
  cases a with
  | dhcp => rfl
  | static address prefixLen gateway dns =>
    have hget : ∀ k, get k (ipv4Json (.static address prefixLen gateway dns)).val = _ :=
      get_object (by simp)
    have hclosed : closed ["mode", "address", "prefix", "gateway", "dns"]
        (ipv4Json (.static address prefixLen gateway dns)).val = some () :=
      closed_object (by simp)
    have hp := natBelow_nat (h address prefixLen gateway dns rfl)
    have hg : nullable asStr (ofOption .str gateway).val = some gateway :=
      nullable_ofOption str_solid gateway fun s _ => rfl
    have hd : items asStr (ofItems .str dns).val = some dns := items_ofItems fun s _ => rfl
    simp [decodeIpv4, need, hget, hclosed, SortedMap.lookup, asStr_str, hp, hg, hd]

theorem decodeNetwork_json {n : Network} (hv : ∀ t, n.vlanId = some t → t < 65536)
    (hp : ∀ address prefixLen gateway dns, n.ipv4 = .static address prefixLen gateway dns →
      prefixLen < 256) : decodeNetwork (networkJson n).val = some n := by
  have hget : ∀ k, get k (networkJson n).val = _ := get_record (by decide) n
  have hclosed : closed ["id", "name", "vlan_id", "ipv4", "dns_search"] (networkJson n).val =
      some () := closed_record (by decide)
  have hvlan : nullable (natBelow 65536) (ofOption .nat n.vlanId).val = some n.vlanId :=
    nullable_ofOption nat_solid n.vlanId fun t ht => natBelow_nat (hv t ht)
  have hipv4 := decodeIpv4_json hp
  have hsearch : defaulted (items asStr) [] "dns_search" (networkJson n).val = some n.dnsSearch :=
    defaulted_nonempty (hget "dns_search") fun s _ => rfl
  simp [decodeNetwork, need, hget, hclosed, networkFields, SortedMap.lookup, present, asStr_str,
    hvlan, hipv4, hsearch]

theorem networkJson_solid : Solid networkJson := record_solid networkFields

/-- What a machine integer of the intent's type can hold. -/
structure Intent.Bounded (i : Intent) : Prop where
  version : i.version < 4294967296
  revision : i.revision < 18446744073709551616
  vlanId : ∀ n ∈ i.networks, ∀ t, n.vlanId = some t → t < 65536
  prefixLen : ∀ n ∈ i.networks, ∀ address prefixLen gateway dns,
    n.ipv4 = .static address prefixLen gateway dns → prefixLen < 256

theorem decodePolicies_json (p : Policies) : decodePolicies (policiesJson p).val = some p := by
  obtain ⟨_ | _⟩ := p <;> rfl

theorem decodeIntent_json {i : Intent} (h : i.Bounded) :
    decodeIntent (intentJson i).val = some i := by
  have hget : ∀ k, get k (intentJson i).val = _ := get_record (by decide) i
  have hclosed : closed ["version", "revision", "interface", "backend", "networks", "management",
      "audio", "ndi", "policies"] (intentJson i).val = some () := closed_record (by decide)
  have hbackend : oneOf NetworkBackend.text allBackends (named NetworkBackend.text i.backend).val =
      some i.backend := by
    cases i.backend <;> rfl
  have hnetworks : items decodeNetwork (ofItems networkJson i.networks).val = some i.networks :=
    items_ofItems fun n hn => decodeNetwork_json (h.vlanId n hn) (h.prefixLen n hn)
  have hndi : defaulted (fun x => (asStr x).map some) none "ndi" (intentJson i).val = some i.ndi :=
    defaulted_optional (hget "ndi") fun s => rfl
  have hversion : need (natBelow 4294967296) "version" (intentJson i).val = some i.version :=
    need_of_get (hget "version") (natBelow_nat h.version)
  have hrevision : need (natBelow 18446744073709551616) "revision" (intentJson i).val =
      some i.revision :=
    need_of_get (hget "revision") (natBelow_nat h.revision)
  rw [decodeIntent, hclosed, hversion, hrevision]
  simp [need, hget, intentFields, SortedMap.lookup, present, asStr_str,
    hbackend, hnetworks, hndi, decodePolicies_json]

end NdimonR.Engine
