import NdimonR.Backend.NetworkManager
import NdimonR.Backend.NetworkdDrift

/-! NetworkManager: a connection that is already there, read as the row of its port. -/

namespace NdimonR.Backend.NetworkManager

open Types Text Engine Backend

structure Ports where
  /-- What `ip -j -d link show` prints. -/
  links : Result Json
  /-- The connection nmcli shows on a device. -/
  connection : (device : String) → Result String
  /-- The routes nmcli shows on a device. -/
  routes : (device : String) → Result String

/-! ### Metrics -/

/-- NetworkManager's own metric for an Ethernet device, which `-1` stands for. -/
def nmEthernetMetric : Nat := 100

/-- The metric of `dst = 0.0.0.0/0, nh = 192.0.2.1, mt = 100`. -/
def routeMetric (route : String) : Option Nat :=
  ((split ',' route).findSome? fun part => stripPrefix "mt = " (trim part)).bind fun metric =>
    parseUnsigned u32Max (trim metric)

/-- A default route of another metric. -/
def otherMetric (route : String) : Bool :=
  includesText "dst = 0.0.0.0/0" route && routeMetric route ≠ some nmEthernetMetric

def shownRoutes (text : String) : List String :=
  (text.toList.splitOnP fun c => c == '|' || c == '\n').map String.ofList

def nmMetric (ports : Ports) (uuid device raw : String) : Result Nat :=
  match parseUnsigned u32Max raw with
  | some metric => .ok metric
  | none =>
    if raw ≠ "-1" then .error (unrepresentable "ipv4.route-metric")
    else do
      let active ← ports.connection device
      if trim active = uuid then do
        let routes ← ports.routes device
        refuse ((shownRoutes routes).any otherMetric) (unrepresentable "ipv4.route-metric")
        .ok nmEthernetMetric
      else .ok nmEthernetMetric

/-! ### Connections of others -/

structure Competitor where
  kind : String
  binding : String
  id : String
  autoconnect : String
  mac : String
  parent : String

def readCompetitor (s : Store) (uuid kind : String) : Result Competitor := do
  let binding ← nmField s uuid "connection.interface-name"
  let id ← nmField s uuid "connection.id"
  let autoconnect ← nmField s uuid "connection.autoconnect"
  let mac ← if kind = "802-3-ethernet" then nmField s uuid "802-3-ethernet.mac-address" else .ok ""
  let parent ← if kind = "vlan" then nmField s uuid "vlan.parent" else .ok ""
  .ok { kind, binding, id, autoconnect, mac, parent }

def Competitor.competing (c : Competitor) (p : NetworkProfiles) (metadata : Metadata)
    (baseMac : String) : Bool :=
  (names p).contains c.binding ||
    (c.binding = "" && (c.mac = "" || Networkd.sameAddress c.mac baseMac)) ||
    c.parent = p.interface || metadata.nmParentUuid = some c.parent ||
    p.networks.any fun n => c.id = "ndimon-vlan-" ++ ifname p n

def Competitor.drift (c : Competitor) (p : NetworkProfiles) (uuid : String) : Ifupdown.Drift where
  domain := .network
  path := uuid
  artifact := some c.id
  foreign := some "/etc/NetworkManager/system-connections"
  selector := "type=" ++ c.kind ++ ";ifname=" ++ c.binding ++ ";parent=" ++ c.parent ++
    ";autoconnect=" ++ c.autoconnect ++ ";mac=" ++ c.mac
  «interface» := if c.binding = "" then p.interface else c.binding
  neutralized := false
  blocking := true

def connectionDrift (s : Store) (p : NetworkProfiles) (metadata : Metadata) (baseMac uuid : String) :
    Result (List Ifupdown.Drift) :=
  if metadata.nmParentUuid = some uuid || metadata.nmOwned.values.contains uuid then .ok []
  else do
    let kind ← nmField s uuid "connection.type"
    if kind ≠ "802-3-ethernet" ∧ kind ≠ "vlan" then .ok []
    else do
      let c ← readCompetitor s uuid kind
      .ok (if c.competing p metadata baseMac then [c.drift p uuid] else [])

def nmDrift (ports : Ports) (s : Store) (p : NetworkProfiles) (metadata : Metadata) :
    Result (List Ifupdown.Drift) := do
  let links ← ports.links
  let baseMac ← Networkd.linkMac links p.interface
  let uuids ← nmUuids s
  let drift ← uuids.mapM (connectionDrift s p metadata baseMac)
  .ok drift.flatten

/-! ### Adoption -/

/-- The error, where the property is set. -/
def refuseSet (s : Store) (uuid field : String) (error : ApiError) : Result Unit := do
  let value ← nmField s uuid field
  refuse (!empty value) error

def property (properties : Properties) (field : String) : String :=
  (properties.get? field).getD ""

def needed (properties : Properties) (field : String) : Result String :=
  match properties.get? field with
  | some value => .ok value
  | none => .error (unrepresentable field)

/-- What a lease is asked with and a row cannot hold. -/
def leaseFields : List String := ["ipv4.dhcp-hostname", "ipv4.dhcp-client-id", "ipv4.dhcp-fqdn"]

/-- What is not taken of a lease. -/
def deniedFields : List String :=
  ["ipv4.never-default", "ipv4.ignore-auto-dns", "ipv4.ignore-auto-routes"]

def ipv6Fields : List String :=
  ["ipv6.addresses", "ipv6.gateway", "ipv6.dns", "ipv6.routes", "ipv6.routing-rules"]

/-- The row of an `auto` connection. -/
def autoRow (s : Store) (uuid : String) (properties : Properties) (row : NetworkProfile)
    (addresses : List String) (gateway : String) (dns : List String) : Result NetworkProfile := do
  refuse (!addresses.isEmpty || gateway ≠ "" || !dns.isEmpty) (unsupported "mixed_dhcp_static")
  leaseFields.forM fun field => refuseSet s uuid field (unrepresentable field)
  deniedFields.forM fun field => refuse (properties.get? field = some "yes") (unrepresentable field)
  .ok row

/-- The row of a `manual` connection. -/
def manualRow (row : NetworkProfile) (addresses : List String) (gateway : String)
    (dns : List String) : Result NetworkProfile :=
  match addresses with
  | [address] =>
    match splitOnce "/" address with
    | none => .error (unsupported "unrepresentable_configuration")
    | some (a, bits) =>
      match parseUnsigned 255 bits with
      | none => .error (unsupported "unrepresentable_configuration")
      | some prefixLen =>
        .ok { row with mode := .static, address := a, prefixLen, gateway, dns }
  | _ => .error (unsupported "multiple_addresses")

def methodRow (s : Store) (uuid : String) (properties : Properties) (row : NetworkProfile) :
    Result NetworkProfile :=
  let addresses := elements (property properties "ipv4.addresses")
  let shown := property properties "ipv4.gateway"
  let gateway := if empty shown then "" else shown
  let dns := elements (property properties "ipv4.dns")
  if properties.get? "ipv4.method" = some "auto" then
    autoRow s uuid properties row addresses gateway dns
  else if properties.get? "ipv4.method" = some "manual" then manualRow row addresses gateway dns
  else .error (unsupported "unrepresentable_configuration")

def adoptedMetadata (uuid : String) (metric : Nat) : Metadata :=
  { nmParentUuid := some uuid, dhcpMetric := metric, staticMetric := metric }

/-- The port alone, to look for others on it. -/
def probe (port : String) : NetworkProfiles :=
  { «interface» := port, backend := some .networkmanager }

def adoptNm (ports : Ports) (s : Store) (port uuid : String) :
    Result (NetworkProfile × Metadata) := do
  let kind ← nmField s uuid "connection.type"
  refuse (kind ≠ "802-3-ethernet") (unsupported "wired_port_required")
  let binding ← nmField s uuid "connection.interface-name"
  refuse (binding ≠ "" ∧ binding ≠ port) (unsupported "foreign_connection")
  refuseSet s uuid "ipv4.routes" (unsupported "custom_routes: ipv4.routes")
  refuseSet s uuid "ipv4.routing-rules" (unsupported "policy_routing: ipv4.routing-rules")
  ipv6Fields.forM fun field => refuseSet s uuid field (unsupported ("ipv6_configuration: " ++ field))
  let ipv6 ← nmField s uuid "ipv6.method"
  refuse (!(["auto", "disabled", "ignore"].contains ipv6))
    (unsupported ("ipv6_configuration: ipv6.method is " ++ ipv6))
  let properties ← nmSnapshot s uuid
  let search ← searchList (elements (property properties "ipv4.dns-search")) "ipv4.dns-search"
  let row ← methodRow s uuid properties { dhcpRow with dnsSearch := search }
  let raw ← needed properties "ipv4.route-metric"
  let metric ← nmMetric ports uuid port raw
  let metadata := adoptedMetadata uuid metric
  let drift ← nmDrift ports s (probe port) metadata
  refuse (!drift.isEmpty) (unsupported "foreign_connection")
  .ok (row, metadata)

end NdimonR.Backend.NetworkManager
