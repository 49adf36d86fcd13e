import NdimonR.Backend.Common
import NdimonR.Library.Outcome
import NdimonR.Library.Reading

/-! Netplan: the definition written for an interface, and the reader that adopts one. -/

namespace NdimonR.Backend.Netplan

open Types Text Engine Backend Json

/-! ### Writing -/

def strings (l : List String) : Json := .arr (l.map .str)

/-- The default route of a row. -/
def route (gateway : String) (metric : Nat) : Json :=
  ofMembers [("to", .str "default"), ("via", .str gateway), ("metric", .int metric)]

/-- The members the definition has whatever the row, with the given values. -/
def members (dhcp4 : Bool) (addresses : List String) (routes : List Json) (nameservers : Json) :
    List (String × Json) :=
  [("dhcp4", .bool dhcp4), ("dhcp6", .bool false), ("addresses", strings addresses),
    ("routes", .arr routes), ("nameservers", nameservers), ("optional", .bool true),
    ("accept-ra", .bool false), ("link-local", .arr [])]

def overrides (management : Bool) (m : Metadata) : Json :=
  ofMembers [("use-routes", .bool management), ("use-dns", .bool management),
    ("use-ntp", .bool false), ("use-hostname", .bool false), ("route-metric", .int m.dhcpMetric)]

def entry (n : Option NetworkProfile) (p : NetworkProfiles) (m : Metadata) : Json :=
  match n with
  | none => ofMembers (members false [] [] (ofMembers [("addresses", strings [])]))
  | some n =>
    let management := n.id == p.roles.management
    -- Management only, DHCP or static; the key is omitted when empty.
    let search := if management ∧ n.dnsSearch ≠ [] then [("search", strings n.dnsSearch)] else []
    let dhcp := ("dhcp4-overrides", overrides management m)
    match n.mode with
    | .dhcp =>
      ofMembers (members true [] [] (ofMembers (("addresses", strings []) :: search)) ++ [dhcp])
    | .static =>
      ofMembers (members false [n.address ++ "/" ++ toString n.prefixLen]
        (if management ∧ n.gateway ≠ "" then [route n.gateway m.staticMetric] else [])
        (ofMembers (("addresses", strings n.dns) :: search)) ++ [dhcp])

/-! ### Reading -/

def list (v : Json) (key : String) : Result (List Json) :=
  match Json.get key v with
  | none => .ok []
  | some .null => .ok []
  | some (.arr items) => .ok items
  | some _ => .error (unrepresentable key)

def allowed : List String :=
  ["dhcp4", "dhcp6", "addresses", "routes", "gateway4", "gateway6", "nameservers",
    "dhcp4-overrides", "dhcp6-overrides", "accept-ra", "link-local", "ipv6-privacy", "optional",
    "match", "set-name", "renderer", "mtu", "wakeonlan"]

/-- The first key outside a list is refused by name. -/
def closedKeys (known : List String) (name : String → String) (v : Json) : Result Unit :=
  match (Json.keys v).find? fun k => !known.contains k with
  | some key => .error (unrepresentable (name key))
  | none => .ok ()

/-- A bare `dhcp6: true` is the distribution's default, not address intent. -/
def ipv6 (v : Json) : Bool :=
  Json.member "gateway6" v ≠ .null || (Json.get "dhcp6-overrides" v).isSome ||
    Json.member "accept-ra" v = .bool true

def text (error : ApiError) (v : Json) : Result String :=
  match Json.asStr v with
  | some s => .ok s
  | none => .error error

/-- An error of the result replaced by another. -/
def mapErr {α : Type} (error : ApiError) : Result α → Result α
  | .ok a => .ok a
  | .error _ => .error error

/-- The name servers, as they stand, and the search domains. -/
def nameservers (v : Json) : Result (List Json × List String) :=
  let servers := Json.member "nameservers" v
  if servers = .null then .ok ([], [])
  else do
    refuse (Json.asObject servers).isNone (unrepresentable "nameservers")
    closedKeys ["addresses", "search"] ("nameservers." ++ ·) servers
    let items ← mapErr (unrepresentable "nameservers.search") (list servers "search")
    let search ← items.mapM (text (unrepresentable "nameservers.search"))
    let addresses ← mapErr (unrepresentable "nameservers.addresses") (list servers "addresses")
    let search ← searchList search "nameservers.search"
    .ok (addresses, search)

def u32 (error : ApiError) (v : Json) : Result Nat :=
  match Json.asU64 v with
  | some n => if n ≤ u32Max then .ok n else .error error
  | none => .error error

/-- An absent number has its default. -/
def metricOr (default : Nat) (error : ApiError) : Option Json → Result Nat
  | none => .ok default
  | some v => u32 error v

/-- The metric of the lease. -/
def leaseMetric (v : Json) : Result Nat := do
  let overrides := Json.member "dhcp4-overrides" v
  closedKeys ["route-metric", "use-routes", "use-dns", "use-ntp", "use-hostname", "use-domains"]
    ("dhcp4-overrides." ++ ·) overrides
  refuse ((Json.get "use-domains" overrides).any fun d => d ≠ .bool false)
    (unrepresentable "dhcp4-overrides.use-domains")
  metricOr 100 (unrepresentable "dhcp4-overrides.route-metric") (Json.get "route-metric" overrides)

/-- A set of gateways, in order. -/
abbrev Gateways := SortedMap String Unit

/-- Only a default route is representable. -/
def readRoute (gateways : Gateways) (r : Json) : Result (Gateways × Nat) := do
  refuse (Json.member "to" r ≠ .str "default" && Json.member "to" r ≠ .str "0.0.0.0/0")
    (unsupported "custom_routes")
  refuse ((Json.asObject r).isNone || (Json.keys r).any fun k => !(["to", "via", "metric"].contains k))
    (unsupported "custom_routes")
  let via ← text (unsupported "custom_routes") (Json.member "via" r)
  let metric ← metricOr 0 (unrepresentable "routes.metric") (Json.get "metric" r)
  .ok (gateways.insert via (), metric)

/-- The gateways, `gateway4` first, and the metric of the last route. -/
def readRoutes (v : Json) (routes : List Json) : Result (Gateways × Nat) :=
  let gateways : Gateways := match Json.asStr (Json.member "gateway4" v) with
    | some g => SortedMap.singleton g ()
    | none => .empty
  routes.foldlM (fun st r => readRoute st.1 r) (gateways, 0)

/-- The static part of the row. -/
def staticRow (row : NetworkProfile) (addresses dns : List Json) (gateways : Gateways) :
    Result NetworkProfile :=
  match addresses with
  | [a] =>
    match (Json.asStr a).bind (splitOnce "/") with
    | none => .error (unrepresentable "addresses")
    | some (address, bits) =>
      match parseUnsigned 255 bits with
      | none => .error (unrepresentable "addresses")
      | some prefixLen => do
        let dns ← dns.mapM (text (unsupported "ipv6_configuration"))
        .ok { row with mode := .static, address, prefixLen,
                       gateway := gateways.keys.head?.getD "", dns }
  | _ => .error (unsupported "multiple_addresses")

def modeRow (v : Json) (row : NetworkProfile) (addresses dns : List Json) (gateways : Gateways) :
    Result NetworkProfile :=
  if Json.member "dhcp4" v = .bool true then
    if addresses ≠ [] ∨ gateways.isEmpty = false ∨ dns ≠ [] then
      .error (unsupported "mixed_dhcp_static")
    else .ok row
  else staticRow row addresses dns gateways

/-- The row of a definition, the metric of its lease and that of its static route. -/
def parse (v : Json) : Result (NetworkProfile × Nat × Nat) := do
  refuse (Json.asObject v).isNone (unsupported "unrepresentable_configuration")
  closedKeys allowed id v
  refuse ((Json.get "ipv6-privacy" v).any fun p => !Json.isBoolean p) (unrepresentable "ipv6-privacy")
  refuse (ipv6 v) (unsupported "ipv6_configuration")
  let addresses ← list v "addresses"
  let routes ← list v "routes"
  refuse (1 < routes.length || !routes.isEmpty && (Json.get "gateway4" v).isSome)
    (unsupported "multiple_gateways")
  let servers ← nameservers v
  let metric ← leaseMetric v
  let gateways ← readRoutes v routes
  refuse (1 < gateways.1.size) (unsupported "multiple_gateways")
  refuse ((addresses ++ servers.1).any (fun v => (Json.asStr v).any (any (· == ':'))) ||
    gateways.1.keys.any (any (· == ':'))) (unsupported "ipv6_configuration")
  let row ← modeRow v dhcpRow addresses servers.1 gateways.1
  .ok ({ row with dnsSearch := servers.2 }, metric, gateways.2)

end NdimonR.Backend.Netplan
