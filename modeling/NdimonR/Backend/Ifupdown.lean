import NdimonR.Backend.Common
import NdimonR.Library.Outcome
import Mathlib.Data.List.Infix

/-! ifupdown: the stanzas written for a profile, the reader of the included files, and adoption. -/

namespace NdimonR.Backend.Ifupdown

open Types Text Engine Backend

/-! ### The host -/

/-- The files below the engine's root, as its trusted readers find them. -/
structure Root where
  snapshot : String → Result (Option Image)
  list : String → Result (List String)

/-- A compiled pattern, where it compiles, says which names it matches. -/
abbrev Glob := String → Option (String → Bool)

structure Host where
  root : Root
  glob : Glob
  /-- The exit code and both outputs of `dhclient --version`. -/
  dhclient : Result (Int × String)
  present : String → Result Bool
  handoff : Bool := false
  handoffPaths : List String := []

def decode : Option Image → Result (Option String)
  | none => .ok none
  | some image =>
    match String.fromUTF8? ⟨image.bytes.toArray⟩ with
    | some text => .ok (some text)
    | none => .error (unsupported "unsafe_configuration")

def Root.text (root : Root) (path : String) : Result (Option String) :=
  root.snapshot path >>= decode

/-- The question differs from reading the file only where reading it is refused too. -/
def Root.isThere (root : Root) (path : String) : Result Bool :=
  Option.isSome <$> root.snapshot path

def Root.change (root : Root) (path : String) (text : Option String) (mode : Nat) :
    Result (Option FileChange) := do
  let before ← root.snapshot path
  let after := text.map (Image.ofText · mode)
  .ok (if before = after then none else some { path, before, after })

/-- One more change of the plan; a file is changed once. -/
def push (changes : List FileChange) : Option FileChange → Result (List FileChange)
  | none => .ok changes
  | some change =>
    if changes.any (·.path == change.path) then .error (failed "plan" "duplicate_artifact")
    else .ok (changes ++ [change])

def add (root : Root) (changes : List FileChange) (path : String) (text : Option String)
    (mode : Nat) : Result (List FileChange) :=
  root.change path text mode >>= push changes

/-- The value, where there is one. -/
def required {α : Type} (error : ApiError) : Option α → Result α
  | some a => .ok a
  | none => .error error

/-- Refusal codes that describe the content of a configuration file. -/
def contentRefusals : List String :=
  ["unrepresentable_configuration", "custom_routes", "custom_hooks", "mixed_dhcp_static",
    "multiple_gateways", "ipv6_configuration", "policy_routing"]

/-- Names the source of a content refusal. -/
def located (error : ApiError) (source : String) : ApiError :=
  match error with
  | .unsupported what =>
    let (code, key) := (splitOnce ": " what).getD (what, "")
    if !contentRefusals.contains code then .unsupported what
    else unsupported (if key = "" then code ++ ": " ++ source
      else code ++ ": " ++ key ++ " in " ++ source)
  | other => other

/-- Alternative clients can change ifupdown's selection and hooks: refuse their presence. -/
def Host.iscDhclient (host : Host) : Result Unit := do
  let version ← host.dhclient
  refuse (version.1 ≠ 0 || !decide ("isc-dhclient-".toList <:+: version.2.toList))
    (unsupported "unsupported_dhcp_client")
  ["/sbin/udhcpc", "/usr/sbin/udhcpc", "/sbin/dhcpcd", "/usr/sbin/dhcpcd"].forM fun path => do
    let there ← host.present path
    refuse there (unsupported "unsupported_dhcp_client")

/-! ### Rendering -/

def mainPath : String := "/etc/network/interfaces"

def parentPath («interface» : String) : String := "/etc/network/interfaces.d/ndimon-" ++ «interface»

def vlansPath : String := "/etc/network/interfaces.d/ndimon-vlans"

def hookPath : String := "/etc/dhcp/dhclient-enter-hooks.d/ndimon-vlans"

/-- The metric of a row's default route. -/
def metric (m : Metadata) (n : NetworkProfile) : Nat :=
  if n.mode = .dhcp then m.dhcpMetric else m.staticMetric

/-- Only direct includes are supported. -/
def admits (glob : Glob) (main name : String) : Bool :=
  (lines main).any fun l =>
    let parts := splitWhitespace l
    (parts.head? == some "source" && (parts.drop 1).any fun s =>
      ((stripPrefix "/etc/network/interfaces.d/" s).bind glob).any (· name)) ||
      parts == ["source-directory", "/etc/network/interfaces.d"]

def method : AddressMode → String
  | .dhcp => "dhcp"
  | .static => "static"

/-- The keys of a row's stanza and their values. -/
def stanzaValues (p : NetworkProfiles) (m : Metadata) (n : NetworkProfile) :
    List (String × String) :=
  (if n.vlanId.isSome then [("vlan-raw-device", p.interface)] else []) ++
  (if n.mode = .static then
    [("address", n.address ++ "/" ++ toString n.prefixLen)] ++
    (if n.gateway ≠ "" then [("gateway", n.gateway)] else []) ++
    (if n.dns ≠ [] then [("dns-nameservers", unwords n.dns)] else [])
  else []) ++
  -- Management only, DHCP or static; omitted when empty.
  (if n.id = p.roles.management ∧ n.dnsSearch ≠ [] then [("dns-search", unwords n.dnsSearch)]
  else []) ++
  [("metric", toString (metric m n))]

def stanzaLines (name method : String) (values : List (String × String)) : List String :=
  ["auto " ++ name, "iface " ++ name ++ " inet " ++ method] ++
    values.map fun e => "    " ++ e.1 ++ " " ++ e.2

def rowLines (p : NetworkProfiles) (m : Metadata) (n : NetworkProfile) : List String :=
  stanzaLines (ifname p n) (method n.mode) (stanzaValues p m n)

/-- The last untagged row replaces the manual port. -/
def parentText (p : NetworkProfiles) (m : Metadata) : String :=
  unlines <|
    match (p.networks.filter (·.vlanId.isNone)).getLast? with
    | some n => rowLines p m n
    | none => stanzaLines p.interface "manual" []

def vlansText (p : NetworkProfiles) (m : Metadata) : String :=
  unlines ((p.networks.filter (·.vlanId.isSome)).flatMap fun n => rowLines p m n ++ [""])

def hookText (p : NetworkProfiles) : String :=
  let leases := p.networks.filter (·.mode == .dhcp)
  let guarded := leases.filter (·.id != p.roles.management)
  let clause (rows : List NetworkProfile) (unset : String) : List String :=
    if rows.isEmpty then []
    else ["case \"$interface\" in", String.intercalate "|" (rows.map (ifname p)) ++ ")", unset,
      ";;", "esac"]
  unlines (["# Managed by NDIMon network profiles"] ++
    clause leases "unset new_ntp_servers new_host_name" ++
    clause guarded ("unset new_routers new_static_routes new_classless_static_routes " ++
      "new_rfc3442_classless_static_routes new_domain_name_servers new_domain_name " ++
      "new_domain_search"))

def render (host : Host) (p : NetworkProfiles) (m : Metadata) (files : List FileChange) :
    Result (List FileChange) := do
  host.iscDhclient
  -- The include pattern admits both owned paths, even before the VLAN file exists.
  let main ← host.root.text mainPath
  let main ← required (unsupported "ifupdown_include_missing") main
  refuse (!(["ndimon-" ++ p.interface, "ndimon-vlans"].all (admits host.glob main)))
    (unsupported "ifupdown_include_missing")
  let files ← add host.root files (parentPath p.interface) (some (parentText p m)) 0o644
  let files ← add host.root files vlansPath (some (vlansText p m)) 0o644
  add host.root files hookPath (some (hookText p)) 0o644

/-! ### Included files -/

/-- A line without its comment. -/
def uncommented (line : String) : String := trim ((split '#' line).head?.getD "")

/-- The files read so far, in order. -/
structure Sources where
  seen : List String := []
  texts : List (String × String) := []

/-- The directory and the file name of a path; what follows the last name is no component. -/
def cutPath (path : String) : Option (String × String) :=
  let idle (piece : String) : Bool := piece == "" || piece == "."
  let pieces := (split '/' path).rdropWhile idle
  let directory := pieces.dropLast.rdropWhile idle
  match pieces.getLast? with
  | none => none
  | some ".." => none
  | some name =>
    some (if directory = [] then
        if startsWith (· == '/') path then "/"
        else if (split '/' path).head? = some "." then "." else ""
      else String.intercalate "/" directory, name)

def fileName (child : String) : String := (split '/' child).getLast?.getD ""

/-- The files a line includes, each read before the next is looked for. -/
def includes (host : Host) (visit : Sources → String → Result Sources) (acc : Sources)
    (parts : List String) : Result Sources :=
  if parts.head? = some "source" then
    (parts.drop 1).foldlM (fun acc pattern => do
      let path ← required (unsupported "ifupdown_include_missing") (cutPath pattern)
      let matcher ← required (unsupported "unsafe_configuration") (host.glob path.2)
      let children ← host.root.list path.1
      (children.filter fun child => matcher (fileName child)).foldlM visit acc) acc
  else if parts.head? = some "source-directory" then
    (parts.drop 1).foldlM (fun acc directory => do
      let children ← host.root.list directory
      (children.filter fun child =>
        all (fun c => isAsciiAlphanumeric c || c == '_' || c == '-') (fileName child)).foldlM
          visit acc) acc
  else .ok acc

/-- A file and, line by line, what it includes; `left` levels may still be entered. -/
def interfaceSources (host : Host) : Nat → Sources → String → Result Sources
  | 0, _, _ => .error (unsupported "unsafe_configuration")
  | left + 1, acc, path =>
    if path ∈ acc.seen then .error (unsupported "unsafe_configuration")
    else do
      let text ← host.root.text path
      let text ← required (unsupported "ifupdown_include_missing") text
      (lines text).foldlM
        (fun acc l => includes host (interfaceSources host left) acc
          (splitWhitespace (uncommented l)))
        { seen := acc.seen ++ [path], texts := acc.texts ++ [(path, text)] }

/-- The main file is at depth 0, and 16 is the deepest. -/
def sources (host : Host) : Result (List (String × String)) :=
  Sources.texts <$> interfaceSources host 17 {} mainPath

/-! ### Stanzas -/

structure Stanza where
  path : String
  name : String
  family : String
  method : String
  values : SortedMap String String := .empty
  active : Bool := false
  deriving DecidableEq

/-- The stanzas a file has ended, the one it is in, and the names it activates. -/
structure Scan where
  ended : List Stanza := []
  current : Option Stanza := none
  active : List String := []

def Scan.close (st : Scan) : Scan :=
  { st with ended := st.ended ++ st.current.toList, current := none }

/-- A key and its words; a key stands once. -/
def Scan.value (st : Scan) (key : String) (words : List String) : Result Scan :=
  match st.current with
  | none => .error (unsupported "unrepresentable_configuration")
  | some s =>
    if words = [] ∨ s.values.contains key then
      .error (unsupported "unrepresentable_configuration")
    else .ok { st with current := some { s with values := s.values.insert key (unwords words) } }

def Scan.words (path : String) (st : Scan) (parts : List String) : Result Scan :=
  match parts with
  | [] => .ok st
  | key :: rest =>
    if key ∈ ["auto", "allow-auto", "allow-hotplug"] then
      .ok { st with active := st.active ++ rest }
    else if key ∈ ["source", "source-directory"] then .ok st.close
    else
      match decide (key = "iface"), rest with
      | true, [name, family, method] =>
        .ok { st.close with current := some { path, name, family, method } }
      | _, _ => st.value key rest

/-- The lines without comments, blank ones left out. -/
def settings (text : String) : List String :=
  ((lines text).map uncommented).filter (· ≠ "")

def scan (path text : String) : Result Scan :=
  (settings text).foldlM (fun st l => Scan.words path st (splitWhitespace l)) {}

/-- A pattern activates only by the very name. -/
def activate (glob : Glob) (s : Stanza) (pattern : String) : Result Stanza := do
  let matcher ← required (unsupported "unsafe_configuration") (glob pattern)
  refuse (matcher s.name && pattern != s.name) (unsupported "unrepresentable_configuration")
  .ok (if matcher s.name then { s with active := true } else s)

/-- Adds the stanzas of a file; its names activate those of that file only. -/
def readSource (glob : Glob) (out : List Stanza) (source : String × String) :
    Result (List Stanza) := do
  let st ← scan source.1 source.2
  (out ++ st.close.ended).mapM fun s =>
    if s.path = source.1 then st.active.foldlM (activate glob) s else .ok s

def stanzas (host : Host) : Result (List Stanza) := do
  let texts ← sources host
  texts.foldlM (readSource host.glob) []

/-! ### Adoption -/

/-- The keys of a stanza are among those known. -/
def closedKeys (known : List String) (s : Stanza) : Result Unit :=
  match s.values.keys.find? fun k => !known.contains k with
  | some key => .error (located (unsupported ("custom_hooks: " ++ key)) s.path)
  | none => .ok ()

/-- The mode of the row and what only a static one has. -/
def methodRow (s : Stanza) (row : NetworkProfile) : Result NetworkProfile :=
  if s.method = "dhcp" then do
    refuse (s.values.keys.any fun k => !(["metric", "dns-search", "privext"].contains k))
      (located (unsupported "mixed_dhcp_static") s.path)
    .ok row
  else if s.method = "static" then do
    let address := located (unrepresentable "address") s.path
    let cidr ← required address ((s.values.get? "address").bind (splitOnce "/"))
    let prefixLen ← required address (parseUnsigned 255 cidr.2)
    .ok { row with
      mode := .static
      address := cidr.1
      prefixLen
      gateway := (s.values.get? "gateway").getD ""
      dns := ((s.values.get? "dns-nameservers").map splitWhitespace).getD [] }
  else .error (located (unrepresentable "iface") s.path)

/-- An error of the result with its source named. -/
def locate {α : Type} (source : String) : Result α → Result α
  | .ok a => .ok a
  | .error e => .error (located e source)

def stanzaMetric (s : Stanza) : Result Nat :=
  match s.values.get? "metric" with
  | none => .ok 0
  | some v => required (located (unrepresentable "metric") s.path) (parseUnsigned u32Max v)

/-- The row and the metric of the stanza that owns the port. -/
def adoptStanza (host : Host) («interface» : String) (s : Stanza) :
    Result (NetworkProfile × Metadata) := do
  refuse (s.path == mainPath) (unsupported "ifupdown_main_stanza")
  refuse (s.path != parentPath «interface») (located (unrepresentable "iface") s.path)
  refuse (!s.active || s.family != "inet") (located (unrepresentable "iface") s.path)
  closedKeys ["address", "gateway", "dns-nameservers", "dns-search", "metric", "privext"] s
  -- `privext` is no address intent: the rendered stanza omits it.
  refuse ((s.values.get? "privext").any fun v => !(["0", "1", "2"].contains v))
    (located (unrepresentable "privext") s.path)
  host.iscDhclient
  let search ← locate s.path
    (searchList (((s.values.get? "dns-search").map splitWhitespace).getD []) "dns-search")
  let row ← methodRow s { dhcpRow with dnsSearch := search }
  let metric ← stanzaMetric s
  .ok (row, { parentSource := s.path, dhcpMetric := metric, staticMetric := metric })

def adopt (host : Host) («interface» : String) : Result (NetworkProfile × Metadata) := do
  let there ← host.root.isThere mainPath
  refuse (!there) (unsupported "unknown_backend")
  let all ← stanzas host
  let matching := all.filter (·.name == «interface»)
  refuse (matching.any (·.family == "inet6")) (unsupported "ipv6_configuration")
  refuse (1 < matching.length) (unsupported "duplicate_stanza")
  let s ← required (unsupported "unknown_backend") matching.head?
  adoptStanza host «interface» s

/-! ### Drift -/

structure Drift where
  domain : Domain
  path : String
  artifact : Option String
  foreign : Option String
  selector : String
  «interface» : String
  neutralized : Bool
  blocking : Bool

/-- What is said of a stanza that is not ours. -/
def foreignStanza (s : Stanza) : Drift where
  domain := .network
  path := s.path
  artifact := some ("iface " ++ s.name ++ " " ++ s.family ++ " " ++ s.method)
  foreign := some s.path
  selector := "activation=" ++ toString s.active
  «interface» := s.name
  neutralized := false
  blocking := true

/-- How often each name stood, and the stanzas that are not ours. -/
structure Drifting where
  counts : SortedMap String Nat := .empty
  drift : List Drift := []

def Drifting.stanza (host : Host) (p : NetworkProfiles) (st : Drifting) (s : Stanza) : Drifting :=
  if host.handoff && host.handoffPaths.contains s.path then st
  else if s.name ∈ names p then
    let count := (st.counts.get? s.name).getD 0 + 1
    let expected := if s.name = p.interface then parentPath p.interface else vlansPath
    { counts := st.counts.insert s.name count
      drift := st.drift ++
        if s.path ≠ expected ∨ 1 < count ∨ s.family ≠ "inet" then [foreignStanza s] else [] }
  else st

def drift (host : Host) (p : NetworkProfiles) : Result (List Drift) := do
  let all ← stanzas host
  .ok (all.foldl (Drifting.stanza host p) {}).drift

end NdimonR.Backend.Ifupdown
