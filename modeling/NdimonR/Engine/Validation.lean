import NdimonR.Types.Validation

/-! The privileged validator: it normalises a candidate and collects every error. -/

namespace NdimonR.Engine

open Types Text

abbrev Seen := Validator.NetworkSeen

/-- The engine's error collector: the error is added when the condition holds. -/
def addIf (condition : Bool) (field reason : String) : List FieldError :=
  if condition then [⟨field, reason⟩] else []

def ifname (p : NetworkProfiles) (n : NetworkProfile) : String :=
  match n.vlanId with
  | none => p.interface
  | some tag => s!"{p.interface}.{tag}"

def assigned (p : NetworkProfiles) (id : String) : Except ApiError NetworkProfile :=
  match p.networks.find? (fun n => n.id == id) with
  | some n => .ok n
  | none => .error (.notFound s!"network:{id}")

def physical (s : String) : Bool :=
  s ≠ "" && len s ≤ 15 && s ≠ "lo" &&
    all (fun c => isAsciiAlphanumeric c || c == '_' || c == '-') s

def unicast (a : Ipv4Addr) : Bool :=
  a.o0 ≠ 0 && a.o0 ≠ 127 && a.o0 < 224 && !(a.o0 == 169 && a.o1 == 254)

def subnet (a : Ipv4Addr) (prefixLen : Nat) : BitVec 32 × BitVec 32 :=
  let mask := prefixMask prefixLen
  let low := a.toU32 &&& mask
  (low, low ||| ~~~ mask)

def mapped : IpAddr → Option Ipv4Addr
  | .v4 a => some a
  | .v6 bits => IpAddr.toIpv4Mapped bits

/-- What the loop leaves in a row: a trimmed name, and no static fields under DHCP. -/
def normalizeRow (n : NetworkProfile) : NetworkProfile :=
  match n.mode with
  | .dhcp => { n with name := trim n.name, address := "", prefixLen := 0, gateway := "", dns := [] }
  | .static => { n with name := trim n.name }

def validNetworkId (id : String) : Bool :=
  id ≠ "" && len id ≤ 32 && startsWith isAsciiLowercase id &&
    all (fun c => isAsciiLowercase c || isAsciiDigit c || c == '-') id

def dnsSearchErrors (path : String) (domains : List String) : List FieldError :=
  domains.zipIdx.flatMap fun (d, j) =>
    addIf (!validDnsSearchDomain d) s!"{path}.dns_search[{j}]" "invalid_dns_search_domain"

/-- Checks every row gets, whatever its mode. -/
def commonErrors (p : NetworkProfiles) (seen : Seen) (path : String) (n : NetworkProfile) :
    List FieldError :=
  addIf (!validNetworkId n.id) s!"{path}.id" "invalid_network_id" ++
  addIf (seen.ids.contains n.id) s!"{path}.id" "duplicate_network_id" ++
  addIf (trim n.name == "" || 64 < chars n.name || any isControl n.name) s!"{path}.name"
    "invalid_network_name" ++
  addIf (n.id ≠ p.roles.management && !n.dnsSearch.isEmpty) s!"{path}.dns_search"
    "gateway_dns_management_only" ++
  addIf (maxDnsSearch < n.dnsSearch.length) s!"{path}.dns_search" "invalid_dns_search_list" ++
  dnsSearchErrors path n.dnsSearch ++
  addIf (n.vlanId.any fun t => !(1 ≤ t && t ≤ 4094)) s!"{path}.vlan_id" "invalid_vlan_id" ++
  addIf (seen.tags.contains n.vlanId) s!"{path}.vlan_id" "duplicate_vlan" ++
  addIf (15 < len (ifname p n)) s!"{path}.vlan_id" "interface_name_too_long"

/-- A gateway is read only next to a usable address and prefix. -/
def gatewayErrors (path : String) (a : Ipv4Addr) (low high : BitVec 32) (gateway : String) :
    List FieldError :=
  if gateway = "" then []
  else
    match Ipv4Addr.parse gateway with
    | none => addIf true s!"{path}.gateway" "invalid_gateway"
    | some g =>
      addIf (g.toU32 < low || high < g.toU32) s!"{path}.gateway" "gateway_outside_subnet" ++
      addIf (!unicast g || g == a || g.toU32 == low || g.toU32 == high) s!"{path}.gateway"
        "unusable_gateway"

def addressErrors (subnets : List (BitVec 32 × BitVec 32)) (path : String) (n : NetworkProfile)
    (a : Ipv4Addr) : List FieldError × List (BitVec 32 × BitVec 32) :=
  let usable := addIf (!unicast a) s!"{path}.address" "unusable_unicast_address"
  if 8 ≤ n.prefixLen ∧ n.prefixLen ≤ 30 then
    let (low, high) := subnet a n.prefixLen
    (usable ++
      addIf (a.toU32 == low || a.toU32 == high) s!"{path}.address"
        "network_or_broadcast_address" ++
      addIf (subnets.any fun (l, h) => low ≤ h && l ≤ high) s!"{path}.address"
        "subnets_overlap" ++
      gatewayErrors path a low high n.gateway,
      subnets ++ [(low, high)])
  else (usable, subnets)

def dnsErrors (path : String) (dns : List String) : List FieldError :=
  dns.zipIdx.flatMap fun (d, j) =>
    match Ipv4Addr.parse d with
    | none => addIf true s!"{path}.dns[{j}]" "invalid_dns_address"
    | some a => addIf (!unicast a) s!"{path}.dns[{j}]" "unusable_dns_address"

def staticErrors (p : NetworkProfiles) (subnets : List (BitVec 32 × BitVec 32)) (path : String)
    (n : NetworkProfile) : List FieldError × List (BitVec 32 × BitVec 32) :=
  let (address, subnets) := match Ipv4Addr.parse n.address with
    | none => (addIf true s!"{path}.address" "invalid_ipv4_address", subnets)
    | some a => addressErrors subnets path n a
  (addIf (!(8 ≤ n.prefixLen && n.prefixLen ≤ 30)) s!"{path}.prefix" "prefix_out_of_range" ++
    address ++
    addIf (n.id ≠ p.roles.management && (n.gateway ≠ "" || !n.dns.isEmpty)) s!"{path}.gateway"
      "gateway_dns_management_only" ++
    addIf (3 < n.dns.length) s!"{path}.dns" "invalid_dns_list" ++
    dnsErrors path n.dns,
    subnets)

def validateRow (p : NetworkProfiles) (seen : Seen) (i : Nat) (n : NetworkProfile) :
    List FieldError × Seen :=
  let path := s!"network.networks[{i}]"
  let common := commonErrors p seen path n
  let ids := n.id :: seen.ids
  let tags := n.vlanId :: seen.tags
  match n.mode with
  | .dhcp => (common, ⟨ids, tags, seen.subnets⟩)
  | .static =>
    let (errors, subnets) := staticErrors p seen.subnets path n
    (common ++ errors, ⟨ids, tags, subnets⟩)

def validateRows (p : NetworkProfiles) : Seen → Nat → List NetworkProfile → List FieldError × Seen
  | seen, _, [] => ([], seen)
  | seen, i, n :: rest =>
    let (errors, seen) := validateRow p seen i n
    let (more, seen) := validateRows p seen (i + 1) rest
    (errors ++ more, seen)

def normalize (p : NetworkProfiles) : NetworkProfiles :=
  { p with networks := p.networks.map normalizeRow }

/-- Both confirmation policies of the document model are known here, so the source's check for
an unknown one never adds an error. -/
def validationErrors (p previous : NetworkProfiles) : List FieldError :=
  let (rows, seen) := validateRows p {} 0 p.networks
  addIf (p.interface ≠ previous.interface || p.backend ≠ previous.backend) "network.interface"
    "fixed_port_backend" ++
  addIf (!physical p.interface) "network.interface" "invalid_physical_interface" ++
  addIf p.backend.isNone "network.backend" "invalid_document" ++
  addIf (!(1 ≤ p.networks.length && p.networks.length ≤ 9)) "network.networks" "network_count" ++
  addIf (8 < (p.networks.filter (·.vlanId.isSome)).length) "network.networks"
    "tagged_network_count" ++
  rows ++
  ([("management", p.roles.management), ("ndi", p.roles.ndi), ("audio", p.roles.audio)].flatMap
    fun (role, id) =>
      addIf (!seen.ids.contains id) s!"network.roles.{role}" "assignment_requires_replacement")

def validate (candidate previous : NetworkProfiles) : Except ApiError NetworkProfiles :=
  match validationErrors candidate previous with
  | [] => .ok (normalize candidate)
  | errors => .error (ApiError.ofErrors errors)

end NdimonR.Engine
