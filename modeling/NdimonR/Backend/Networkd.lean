import NdimonR.Backend.Common

/-! systemd-networkd: the files rendered for a profile, and the reader that adopts a file. -/

namespace NdimonR.Backend.Networkd

open Types Text Engine Backend

/-! ### Rendering -/

/-- The lines that configure the addresses of one interface. -/
def address (n : Option NetworkProfile) (management : Bool) (m : Metadata) : List String :=
  match n with
  | none => ["DHCP=no"]
  | some n =>
    -- `Domains=` is a [Network] key, so it precedes the [DHCPv4] section.
    let domains := if management ∧ n.dnsSearch ≠ [] then ["Domains=" ++ unwords n.dnsSearch] else []
    match n.mode with
    | .dhcp =>
      let use := if management then "yes" else "no"
      ["DHCP=ipv4"] ++ domains ++ ["", "[DHCPv4]", "UseDNS=" ++ use, "UseRoutes=" ++ use,
        "UseNTP=no", "UseHostname=no", "RouteMetric=" ++ toString m.dhcpMetric]
    | .static =>
      ["DHCP=no", "Address=" ++ n.address ++ "/" ++ toString n.prefixLen] ++
      if management then
        n.dns.map ("DNS=" ++ ·) ++ domains ++
          if n.gateway ≠ "" then
            ["", "[Route]", "Destination=0.0.0.0/0", "Gateway=" ++ n.gateway,
              "Metric=" ++ toString m.staticMetric]
          else []
      else []

/-- What every file starts with. -/
def header (name : String) : List String :=
  ["[Match]", "Name=" ++ name, "", "[Link]", "RequiredForOnline=no", "", "[Network]",
    "LinkLocalAddressing=no", "IPv6AcceptRA=no"]

def parentText (p : NetworkProfiles) (m : Metadata) : String :=
  let parent := p.networks.find? (·.vlanId.isNone)
  unlines (header p.interface ++
    (p.networks.filter (·.vlanId.isSome)).map (fun n => "VLAN=" ++ ifname p n) ++
    address parent (parent.any fun n => n.id == p.roles.management) m)

def vlanText (p : NetworkProfiles) (m : Metadata) (n : NetworkProfile) : String :=
  unlines (header (ifname p n) ++ address (some n) (n.id == p.roles.management) m)

def netdevText (name : String) (tag : Nat) : String :=
  unlines ["[NetDev]", "Name=" ++ name, "Kind=vlan", "", "[VLAN]", "Id=" ++ toString tag]

/-- The files written for a profile. -/
def files (p : NetworkProfiles) (m : Metadata) (netdevs : Bool) : List (String × String) :=
  ("/etc/systemd/network/00-ndimon-" ++ p.interface ++ ".network", parentText p m) ::
    (p.networks.filter (·.vlanId.isSome)).flatMap fun n =>
      let path := "/etc/systemd/network/00-ndimon-" ++ ifname p n
      (path ++ ".network", vlanText p m n) ::
        if netdevs then
          n.vlanId.toList.map fun tag => (path ++ ".netdev", netdevText (ifname p n) tag)
        else []

/-! ### Reading -/

/-- One setting; a section's header has neither key nor value. -/
structure Entry where
  «section» : String
  key : String
  value : String
  deriving DecidableEq

/-- Trimmed lines, comments and blank ones left out. -/
def settings (text : String) : List String :=
  ((lines text).map trim).filter fun l => l ≠ "" && !startsWith (fun c => c == '#' || c == ';') l

def isHeader (line : String) : Bool := startsWith (· == '[') line && endsWith (· == ']') line

/-- The text between the brackets of a header. -/
def headerName (line : String) : String := String.ofList (line.toList.drop 1).dropLast

/-- Conservative: unsupported syntax is never silently discarded. -/
def iniLines («section» : String) : List String → Result (List Entry)
  | [] => .ok []
  | line :: rest =>
    if endsWith (· == '\\') line then .error (unsupported "unrepresentable_configuration")
    else if isHeader line then do
      let entries ← iniLines (headerName line) rest
      .ok (⟨headerName line, "", ""⟩ :: entries)
    else
      match splitOnce "=" line with
      | none => .error (unsupported "unrepresentable_configuration")
      | some (k, v) => do
        let entries ← iniLines «section» rest
        .ok (⟨«section», trim k, trim v⟩ :: entries)

def ini (text : String) : Result (List Entry) := iniLines "" (settings text)

def trimQuotes (s : String) : String :=
  String.ofList ((s.toList.dropWhile (· == '"')).rdropWhile (· == '"'))

/-- An empty assignment clears the list. -/
def resetList (list : List String) (value : String) : List String :=
  if value = "" then [] else list ++ (splitWhitespace value).map trimQuotes

def privacyExtensions (value : String) : Bool :=
  ["1", "0", "yes", "no", "y", "n", "true", "false", "t", "f", "on", "off", "prefer-public",
    "kernel"].contains (toAsciiLowercase value)

/-- What the entries read so far amount to. -/
structure State where
  addresses : List String := []
  gateways : List String := []
  dns : List String := []
  domains : List String := []
  dhcp : Bool := false
  dhcpMetric : Nat := 1024
  staticMetric : Nat := 0
  route : SortedMap String String := .empty
  last : String := ""

def routeMetric (st : State) : Result Nat :=
  match st.route.get? "Metric" with
  | none => .ok st.staticMetric
  | some m =>
    match parseUnsigned u32Max m with
    | some metric => .ok metric
    | none => .error (unsupported "unrepresentable_configuration")

/-- Ends a [Route] section: only a default route is representable. -/
def finish (st : State) : Result State :=
  if st.route.isEmpty then .ok st
  else if st.route.keys.any fun k => !(["Destination", "Gateway", "Metric"].contains k) then
    .error (unsupported "custom_routes")
  else if (st.route.get? "Destination").any fun d => d ≠ "0.0.0.0/0" && d ≠ "default" then
    .error (unsupported "custom_routes")
  else
    match st.route.get? "Gateway" with
    | none => .error (unsupported "custom_routes")
    | some gateway => do
      let metric ← routeMetric st
      .ok { st with gateways := st.gateways ++ [gateway], staticMetric := metric, route := .empty }

def dhcpSetting (value : String) : Result Bool :=
  if value = "ipv4" then .ok true
  else if value = "no" ∨ value = "false" then .ok false
  else if value = "yes" ∨ value = "true" ∨ value = "ipv6" then
    .error (unsupported "ipv6_configuration")
  else .error (unsupported "unrepresentable_configuration")

/-- A setting of a section, in the order the source tries them. -/
def setting (st : State) (e : Entry) : Result State :=
  let s := e.section
  let k := e.key
  let v := e.value
  let dhcpSection := s = "DHCPv4" ∨ s = "DHCP"
  if s = "Match" ∨ (s = "Link" ∧ k = "RequiredForOnline") then .ok st
  else if s = "Network" ∧ k = "DHCP" then do
    let dhcp ← dhcpSetting v
    .ok { st with dhcp }
  else if (s = "Network" ∨ s = "Address") ∧ k = "Address" then
    .ok { st with addresses := resetList st.addresses v }
  else if s = "Network" ∧ k = "Gateway" then
    .ok { st with gateways := resetList st.gateways v }
  else if s = "Network" ∧ k = "DNS" then .ok { st with dns := resetList st.dns v }
  else if s = "Network" ∧ k = "Domains" then .ok { st with domains := resetList st.domains v }
  else if s = "Network" ∧ k = "IPv6AcceptRA" ∧ (v = "no" ∨ v = "false") then .ok st
  else if s = "Network" ∧ k = "IPv6PrivacyExtensions" ∧ privacyExtensions v then .ok st
  else if s = "Network" ∧ k = "LinkLocalAddressing" ∧ v ∈ ["no", "false", "ipv4"] then .ok st
  else if s = "Network" ∧ k = "VLAN" ∧ v = "" then .ok st
  else if dhcpSection ∧ k = "RouteMetric" then
    match parseUnsigned u32Max v with
    | some metric => .ok { st with dhcpMetric := metric }
    | none => .error (unsupported "unrepresentable_configuration")
  else if dhcpSection ∧ k ∈ ["UseDNS", "UseRoutes", "UseNTP", "UseHostname"] ∧
      v ∈ ["yes", "no", "true", "false"] then .ok st
  else if dhcpSection ∧ k = "UseDomains" ∧ v ∈ ["no", "false"] then .ok st
  else if s = "Route" then .ok { st with route := st.route.insert k v }
  else if s = "RoutingPolicyRule" then .error (unsupported "policy_routing")
  else if (s = "Network" ∧ k ∈ ["IPv6AcceptRA", "DHCPv6", "IPv6Token"]) ∨
      s = "IPv6AcceptRA" ∨ s = "DHCPv6" then .error (unsupported "ipv6_configuration")
  else if v = "" then .ok st
  else .error (unrepresentable ("[" ++ s ++ "] " ++ k))

/-- What a header does with the section before it. -/
def closed (st : State) : Result State := if st.last = "Route" then finish st else .ok st

def step (st : State) (e : Entry) : Result State :=
  if e.key = "" then do
    let st ← closed st
    .ok { st with last := e.section }
  else if e.value = "" ∧ e.section ≠ "Network" ∧ e.section ≠ "Address" then .ok st
  else setting st e

/-- The static part of the row. -/
def staticRow (row : NetworkProfile) (st : State) : Result NetworkProfile :=
  match st.addresses with
  | [a] =>
    match splitOnce "/" a with
    | none => .error (unsupported "unrepresentable_configuration")
    | some (address, bits) =>
      match parseUnsigned 255 bits with
      | none => .error (unsupported "unrepresentable_configuration")
      | some prefixLen =>
        if 1 < st.gateways.length then .error (unsupported "multiple_gateways")
        else .ok { row with mode := .static, address, prefixLen,
                            gateway := st.gateways.head?.getD "", dns := st.dns }
  | _ => .error (unsupported "multiple_addresses")

def row (st : State) : Result NetworkProfile := do
  let dnsSearch ← searchList st.domains "[Network] Domains"
  if (st.addresses ++ st.gateways ++ st.dns).any (any (· == ':')) then
    .error (unsupported "ipv6_configuration")
  else if st.dhcp then
    if st.addresses ≠ [] ∨ st.gateways ≠ [] ∨ st.dns ≠ [] then
      .error (unsupported "mixed_dhcp_static")
    else .ok { dhcpRow with dnsSearch }
  else staticRow { dhcpRow with dnsSearch } st

/-- The row of a file, the metric of its lease and that of its static route. -/
def parse (text : String) : Result (NetworkProfile × Nat × Nat) := do
  let entries ← ini text
  let st ← entries.foldlM step {}
  let st ← finish st
  let n ← row st
  .ok (n, st.dhcpMetric, st.staticMetric)

/-! ### Import -/

/-- The lines of a file without its VLAN list, whose members have to be the profile's. -/
def withoutVlans (p : NetworkProfiles) («section» : String) : List String → Result (List String)
  | [] => .ok []
  | line :: rest =>
    let clean := trim line
    let «section» := if startsWith (· == '[') clean then clean else «section»
    match stripPrefix "VLAN=" clean with
    | some value =>
      if «section» = "[Network]" then
        if value ≠ "" ∧ value ∉ names p then .error (unsupported "foreign_vlan")
        else withoutVlans p «section» rest
      else do
        let more ← withoutVlans p «section» rest
        .ok (line :: more)
    | none => do
      let more ← withoutVlans p «section» rest
      .ok (line :: more)

/-- What import makes of the effective text of a file. -/
def filtered (p : NetworkProfiles) (text : String) : Result String :=
  (withoutVlans p "" (lines text)).map unlines

end NdimonR.Backend.Networkd
