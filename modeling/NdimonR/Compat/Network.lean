import NdimonR.Engine.Semantic
import NdimonR.Library.JsonEdit

/-! The network settings under their legacy addresses: the profile document and the flat status that
are shown, and the two forms that are posted back. -/

namespace NdimonR.Compat.Network

open Types Json Text Engine

def check (holds : Bool) (error : ApiError) : Except ApiError Unit :=
  if holds then .ok () else .error error

/-! ### The profile document -/

def profileDocFields (revision : ℕ) : Fields NetworkProfiles :=
  [("version", present .nat fun _ => 1),
    ("revision", present .nat fun _ => revision),
    ("interface", present .str (·.interface)),
    ("backend", present (ofOption (named NetworkBackend.text)) (·.backend)),
    ("networks", present (ofItems networkProfileJson) (·.networks)),
    ("management", present .str (·.roles.management)),
    ("ndi", present .str (·.roles.ndi)),
    ("tessera", present .str (·.roles.audio))]

def profileDoc (profiles : NetworkProfiles) (revision : ℕ) : Value :=
  record (profileDocFields revision) profiles

def maxRevision : ℕ := 9007199254740991

/-- Not a text, or one of more bytes than allowed. -/
def overlong (max : ℕ) (j : Json) : Bool := (asStr j).all fun s => max < len s

def legacyRowInvalid (r : Json) : Bool :=
  overlong 15 (r.member "address") || overlong 15 (r.member "gateway") ||
    (asU64 (r.member "prefix")).all (30 < ·) ||
    (asArray (r.member "dns")).all (fun ds => 3 < ds.length || ds.any (overlong 15)) ||
    (asArray (r.member "dns_search")).any fun ds => ds.any fun d =>
      (asStr d).any fun s => 253 < len s

def legacyRows : ℕ → List Json → Except ApiError Unit
  | _, [] => .ok ()
  | i, r :: rest =>
    if legacyRowInvalid r then .error (invalid s!"network.networks[{i}]" "invalid_profile")
    else legacyRows (i + 1) rest

/-- The document's own shape: the roles in one object, and a policy. -/
def legacyDocument (v : Json) : Json :=
  ofMembers
    [("interface", v.member "interface"), ("backend", v.member "backend"),
      ("networks", v.member "networks"),
      ("roles", ofMembers
        [("management", v.member "management"), ("ndi", v.member "ndi"),
          ("audio", v.member "tessera")]),
      ("confirm_policy", .str "token_only")]

def legacyKeys : List String :=
  ["version", "revision", "interface", "backend", "networks", "management", "ndi", "tessera"]

variable (floatLen : ℚ → ℕ)

def importLegacy (text : Message) : Except ApiError (ℕ × NetworkProfiles) := do
  check (decide (text.length ≤ maxMessage)) (invalid "network" "message_too_large")
  let v ← text.value.elim (.error (invalid "network" "invalid_document")) .ok
  check ((asObject v).isSome && (keys v).length == legacyKeys.length &&
      (keys v).all (fun k => legacyKeys.contains k))
    (invalid "network" "invalid_document")
  check (asU64 (v.member "version") == some 1)
    (invalid "network.version" "invalid_version_revision")
  let revision ← (asU64 (v.member "revision")).elim
    (.error (invalid "network.revision" "invalid_version_revision")) .ok
  check (decide (revision ≤ maxRevision)) (invalid "network.revision" "invalid_version_revision")
  legacyRows 0 ((asArray (v.member "networks")).getD [])
  let p ← parse (.ofJson floatLen (legacyDocument v))
  let p ← validate p p
  .ok (revision, p)

/-- The policy is the one of the settings in force. -/
def parseProfiles (policy : ConfirmPolicy) (value : Json) :
    Except ApiError (ℕ × NetworkProfiles) := do
  let (revision, profiles) ← importLegacy floatLen (.ofJson floatLen value)
  .ok (revision, { profiles with confirmPolicy := policy })

/-! ### Base settings -/

/-- What is posted of one row. -/
structure Base where
  mode : AddressMode := .dhcp
  address : String := ""
  prefixLen : ℕ := 0
  gateway : String := ""
  dns : List String := []
  deriving DecidableEq

def Base.members (b : Base) : List (String × Value) :=
  [("mode", named AddressMode.text b.mode), ("address", .str b.address),
    ("prefix", .nat b.prefixLen), ("gateway", .str b.gateway), ("dns", ofItems .str b.dns)]

def Base.json (b : Base) : Value := .object b.members

def text (value : Json) : String := trim ((asStr value).getD "")

def number (value : Json) : Option ℕ :=
  (asU64 value).or ((asStr value).bind (parseUnsigned 18446744073709551615))

def refused (reason : String) : ApiError := invalid "network" reason

def checkGateway (low high : BitVec 32) (gateway : String) : Except ApiError Unit :=
  if gateway = "" then .ok ()
  else do
    let ip ← (Ipv4Addr.parse gateway).elim (.error (refused "gateway is not a valid IPv4 address"))
      .ok
    check (decide (low ≤ ip.toU32 ∧ ip.toU32 ≤ high))
      (refused "gateway is not inside the address subnet")

def servers (value : Json) : List String :=
  (((asArray value).getD []).map text).filter fun s => s ≠ ""

def normalizeStatic (value : Json) : Except ApiError Json := do
  let raw := text (value.member "address")
  let ip ← (Ipv4Addr.parse raw).elim (.error (refused "address is not a valid IPv4 address")) .ok
  let prefixLen ← ((number (value.member "prefix")).filter fun p => 8 ≤ p && p ≤ 30).elim
    (.error (refused "prefix must be between 8 and 30")) .ok
  check (unicast ip) (refused "address is not a usable unicast address")
  let (low, high) := subnet ip prefixLen
  check (!([low, high].contains ip.toU32)) (refused "address is the network or broadcast address")
  let gateway := text (value.member "gateway")
  checkGateway low high gateway
  let dns := servers (value.member "dns")
  check (decide (dns.length ≤ 3) && dns.all fun s => (Ipv4Addr.parse s).isSome)
    (refused "dns must be at most 3 IPv4 addresses")
  .ok (Base.json ⟨.static, raw, prefixLen, gateway, dns⟩).val

def normalize (value : Json) : Except ApiError Json :=
  if value.member "mode" = .str "dhcp" then .ok (Base.json {}).val
  else if value.member "mode" = .str "static" then normalizeStatic value
  else .error (refused "mode must be dhcp or static")

/-! ### What is shown -/

/-- The time, and what is said of a value that is not what it is read as: profiles, an error. -/
structure Reader where
  now : ℕ
  notProfiles : Json → String
  errorText : Json → Option String

variable (reader : Reader)

/-- A change that is not yet kept. A recovery that failed stays until it finishes or is accepted. -/
def pending (value : Json) (token : Option String) : Json :=
  if value = .null then .null
  else
    let result := ofMembers
      [("phase", value.member "phase"),
        ("address", .str ((asStr (value.member "management_address")).getD "")),
        ("profiles", .bool true),
        ("remaining_seconds", value.member "remaining_seconds"),
        ("confirm_seconds", .int 60),
        ("confirm_policy", value.member "confirm_policy"),
        ("deadline", .int (reader.now + (asU64 (value.member "remaining_seconds")).getD 0 : ℕ))]
    let result :=
      if value.member "recovery_pending" = .bool true then
        let result := set "recovery_pending" (.bool true) result
        match reader.errorText (value.member "recovery_error") with
        | some error => set "recovery_error" (.str error) result
        | none => result
      else result
    match token with
    | some token => set "token" (.str token) result
    | none => result

def firstAddress (n : Json) : Option Json := (asArray (n.member "addresses")).bind List.head?

def liveAddress (address : Option Json) : Json :=
  .str ((address.bind fun a => asStr (a.item 0)).getD "")

def livePrefix (address : Option Json) : Json :=
  (Value.nat ((address.bind fun a => asU64 (a.item 1)).getD 0)).val

def usedBy (roles : NetworkRoles) (id : String) : List String :=
  ([("management", roles.management), ("ndi", roles.ndi), ("tessera", roles.audio)].filter
    fun r => r.2 = id).map Prod.fst

def rowStatus (value : Json) (profiles : NetworkProfiles) (row : NetworkProfile) : Json :=
  let observed := (asArray (value.member "networks")).bind fun ns =>
    ns.find? fun n => n.member "id" = .str row.id
  let address := observed.bind firstAddress
  setAll
    [("interface", .str (ifname profiles row)), ("live_address", liveAddress address),
      ("live_prefix", livePrefix address), ("ready", .bool address.isSome),
      ("used_by", .arr ((usedBy profiles.roles row.id).map .str))]
    (networkProfileJson row).val

/-- What is live where the network was not adopted. -/
def observedRow (n : Json) : Json :=
  ofMembers
    [("interface", n.member "interface"), ("live_address", liveAddress (firstAddress n)),
      ("live_prefix", livePrefix (firstAddress n))]

def projectStatus (value : Json) (revision : ℕ) : Except ApiError Json := do
  let profiles ← (decodeNetworkProfiles (value.member "profiles")).elim
    (.error (.internal (reader.notProfiles (value.member "profiles")))) .ok
  let result := ofMembers
    [("ok", .bool true), ("settings", (profileDoc profiles revision).val),
      ("networks", .arr (profiles.networks.map (rowStatus value profiles))),
      ("pending", pending reader (value.member "pending") none),
      ("confirm_policy", (named ConfirmPolicy.text profiles.confirmPolicy).val),
      ("externally_managed", .bool (value.member "externally_managed" = .bool true)),
      ("quiesced", .bool (value.member "quiesced" = .bool true)),
      ("stale_done", .arr ((asArray (value.member "stale_done")).getD []))]
  .ok (if (asObject (value.member "refusal")).isSome then
      setAll
        [("refusal", value.member "refusal"),
          ("observed", .arr (((asArray (value.member "networks")).getD []).map observedRow))] result
    else result)

def vlanStatus (settings n : Json) : Json :=
  ofMembers
    [("id", n.member "vlan_id"), ("mode", n.member "mode"), ("address", n.member "address"),
      ("prefix", n.member "prefix"), ("gateway", n.member "gateway"),
      ("allow_gateway", .bool (n.member "id" = settings.member "management")),
      ("managed", .bool true)]

def rowNames : List String :=
  ["mode", "address", "prefix", "gateway", "dns", "live_address", "live_prefix", "interface"]

/-- The management row beside the profiles. -/
def withManagement (profiles value : Json) : Json :=
  let row := (asArray (profiles.member "networks")).bind fun rows =>
    rows.find? fun n => n.member "id" = (profiles.member "settings").member "management"
  match row with
  | none => value
  | some row =>
    let value := setAll (rowNames.map fun name => (name, row.member name)) value
    if (asArray (row.member "dns_search")).isSome then
      set "dns_search" (row.member "dns_search") value
    else value

def withRefusal (profiles value : Json) : Json :=
  if (asObject (profiles.member "refusal")).isSome then
    let value := setAll
      [("reason", (profiles.member "refusal").member "reason"),
        ("refusal", profiles.member "refusal")] value
    match (asArray (profiles.member "observed")).bind List.head? with
    | none => value
    | some live =>
      setAll (["interface", "live_address", "live_prefix"].map fun name => (name, live.member name))
        value
  else value

def domainRevision (native : Json) : ℕ := (asU64 (native.member "domain_revision")).getD 0

def statusValue (native : Json) : Except ApiError Json := do
  let profiles ← projectStatus reader native (domainRevision native)
  let settings := profiles.member "settings"
  let value := ofMembers
    [("ok", .bool true), ("applicable", native.member "writable"),
      ("reason", .str (if native.member "writable" = .bool true then ""
        else "backend_not_certified")),
      ("backend", settings.member "backend"), ("interface", settings.member "interface"),
      ("profiles", settings), ("profile_pending", profiles.member "pending"),
      ("vlan_capable", native.member "writable"), ("vlan_reason", .str ""),
      ("vlan_error", .str "")]
  let value := withRefusal profiles (withManagement profiles value)
  let vlans := ((asArray (settings.member "networks")).getD []).filter fun n =>
    n.member "vlan_id" ≠ .null
  .ok (set "vlans" (.arr (vlans.map (vlanStatus settings))) value)

/-! ### Base settings applied -/

/-- The posted settings over the management row of the profiles that are shown. -/
def merge (current clean : Json) : Except ApiError Json := do
  let profiles := current.member "profiles"
  let management := profiles.member "management"
  let rows ← ((asArray (profiles.member "networks")).filter fun rows =>
      rows.any fun n => n.member "id" = management).elim
    (.error (invalid "network" "missing management")) .ok
  let members ← (asObject clean).elim
    (.error (invalid "settings" "settings must be an object")) .ok
  let rows := updateFirst (fun n => n.member "id" = management) (setAll members) rows
  .ok (set "networks" (.arr rows) profiles)

/-- What is handed on, to be shown as a preview or to be applied. -/
structure Submitted where
  dryRun : Bool
  revision : ℕ
  profiles : NetworkProfiles
  deriving DecidableEq

def notApplicable (current : Json) : String :=
  let reason := (asStr (current.member "reason")).getD "not supported on this system"
  let detail := (asStr ((current.member "refusal").member "detail")).getD ""
  if detail = "" then reason else s!"{reason}: {detail}"

def applyBase (policy : ConfirmPolicy) (native value : Json) : Except ApiError Submitted := do
  let clean ← normalize value
  let current ← statusValue reader native
  check (current.member "applicable" ≠ .bool false) (.unsupported (notApplicable current))
  let candidate ← merge current clean
  let (revision, profiles) ← parseProfiles floatLen policy candidate
  .ok ⟨value.member "dry_run" = .bool true, revision, profiles⟩

end NdimonR.Compat.Network
