import NdimonR.Engine.Intent

/-! The untyped reader of an intent: it flattens every row into the document's own shape, checks
that shape, decodes the document and validates it. -/

namespace NdimonR.Engine

open Types Json Text

variable (floatLen : ℚ → Nat)

def maxMessage : Nat := 65536

/-- A received text: its length in bytes and the value it parses to, if it is JSON. -/
structure Message where
  length : Nat
  value : Option Json

/-- The compact text of a value. -/
def Message.ofJson (j : Json) : Message := ⟨j.size floatLen, some j⟩

/-! ### The document's profiles -/

def decodeNetworkRoles (j : Json) : Option NetworkRoles := do
  closed ["management", "ndi", "audio"] j
  let management ← need asStr "management" j
  let ndi ← need asStr "ndi" j
  let audio ← need asStr "audio" j
  pure { management, ndi, audio }

def decodeNetworkProfile (j : Json) : Option NetworkProfile := do
  closed ["id", "name", "vlan_id", "mode", "address", "prefix", "gateway", "dns", "dns_search"] j
  let id ← need asStr "id" j
  let name ← need asStr "name" j
  let vlanId ← defaulted (nullable (natBelow 65536)) none "vlan_id" j
  let mode ← need (oneOf AddressMode.text allModes) "mode" j
  let address ← need asStr "address" j
  let prefixLen ← need (natBelow 256) "prefix" j
  let gateway ← need asStr "gateway" j
  let dns ← need (items asStr) "dns" j
  let dnsSearch ← defaulted (items asStr) [] "dns_search" j
  pure { id, name, vlanId, mode, address, prefixLen, gateway, dns, dnsSearch }

def decodeNetworkProfiles (j : Json) : Option NetworkProfiles := do
  closed ["interface", "backend", "networks", "roles", "confirm_policy"] j
  let interface ← need asStr "interface" j
  let backend ← defaulted (nullable (oneOf NetworkBackend.text allBackends)) none "backend" j
  let networks ← need (items decodeNetworkProfile) "networks" j
  let roles ← need decodeNetworkRoles "roles" j
  let confirmPolicy ← need (oneOf ConfirmPolicy.text allPolicies) "confirm_policy" j
  pure { interface, backend, networks, roles, confirmPolicy }

/-! ### Its shape -/

/-- Keys that are neither required nor optional, then required keys that are missing. -/
def keyErrors (v : Json) (path : String) (names optional : List String) (reason : String) :
    List FieldError :=
  match asObject v with
  | none => [⟨path, "invalid_type"⟩]
  | some _ =>
    ((keys v).filter fun k => !names.contains k && !optional.contains k).map
      (fun key => ⟨s!"{path}.{key}", reason⟩) ++
    (names.filter fun k => !(keys v).contains k).map fun key => ⟨s!"{path}.{key}", reason⟩

/-- The items of a list that are not strings. -/
def stringErrors (path reason : String) (l : List Json) : List FieldError :=
  l.zipIdx.flatMap fun (d, j) => addIf (asStr d).isNone s!"{path}[{j}]" reason

def searchErrors (path : String) (row : Json) : List FieldError :=
  match get "dns_search" row with
  | none => []
  | some search =>
    match asArray search with
    | none => [⟨path, "invalid_dns_search_list"⟩]
    | some a =>
      if a.length ≤ maxDnsSearch then stringErrors path "invalid_dns_search_domain" a
      else [⟨path, "invalid_dns_search_list"⟩]

def rowShape (i : Nat) (row : Json) : List FieldError :=
  let p := s!"network.networks[{i}]"
  keyErrors row p ["id", "name", "vlan_id", "mode", "address", "prefix", "gateway", "dns"]
    ["dns_search"] "invalid_profile" ++
  searchErrors s!"{p}.dns_search" row ++
  addIf (row.member "vlan_id" ≠ .null && (asU64 (row.member "vlan_id")).isNone) s!"{p}.vlan_id"
    "invalid_vlan_id" ++
  addIf (asU64 (row.member "prefix")).isNone s!"{p}.prefix" "prefix_not_integer" ++
  (["id", "name", "address", "gateway"].flatMap fun field =>
    addIf (asStr (row.member field)).isNone s!"{p}.{field}" "invalid_type") ++
  addIf (!([some "dhcp", some "static"].contains (asStr (row.member "mode")))) s!"{p}.mode"
    "invalid_mode" ++
  addIf ((asArray (row.member "dns")).all fun a => 3 < a.length) s!"{p}.dns" "invalid_dns_list" ++
  stringErrors s!"{p}.dns" "invalid_dns_address" ((asArray (row.member "dns")).getD [])

def rowShapes : Nat → List Json → List FieldError
  | _, [] => []
  | i, row :: rest => rowShape i row ++ rowShapes (i + 1) rest

def shape (v : Json) : List FieldError :=
  keyErrors v "network" ["interface", "backend", "networks", "roles", "confirm_policy"] []
    "invalid_document" ++
  keyErrors (v.member "roles") "network.roles" ["management", "ndi", "audio"] []
    "invalid_document" ++
  (match asArray (v.member "networks") with
  | none => [⟨"network.networks", "invalid_type"⟩]
  | some rows => rowShapes 0 rows) ++
  addIf (!([some "token_only", some "require_management_address"].contains
    (asStr (v.member "confirm_policy")))) "network.confirm_policy" "invalid_policy" ++
  (["management", "ndi", "audio"].flatMap fun role =>
    addIf (asStr ((v.member "roles").member role)).isNone s!"network.roles.{role}" "invalid_type")

/-- The size is checked before the text is parsed. -/
def parse (text : Message) : Except ApiError NetworkProfiles :=
  if maxMessage < text.length then .error (invalid "network" "message_too_large")
  else
    match text.value with
    | none => .error (invalid "network" "invalid_document")
    | some v =>
      match shape v with
      | [] =>
        match decodeNetworkProfiles v with
        | none => .error (invalid "network" "invalid_type")
        | some p => .ok p
      | errors => .error (ApiError.ofErrors errors)

/-! ### The semantic adapter -/

/-- One row of an intent in the document's shape. A DHCP row has no address members, a static one
may leave out what the shape check then asks for. -/
def flatRow (i : Nat) (row : Json) : Except ApiError Json :=
  let path := s!"network.networks[{i}]"
  if (asObject row).isNone ||
      ["id", "name", "vlan_id", "ipv4"].any (fun k => !(keys row).contains k) ||
      (keys row).any (fun k => !(["id", "name", "vlan_id", "ipv4", "dns_search"].contains k)) then
    .error (invalid path "invalid_profile")
  else
    let ipv4 := row.member "ipv4"
    if (asObject ipv4).isNone then .error (invalid s!"{path}.ipv4" "invalid_ipv4")
    else
      let dhcp := (get "mode" ipv4).bind asStr == some "dhcp"
      let allowed :=
        if dhcp then ["mode"] else ["mode", "address", "prefix", "gateway", "dns"]
      if (keys ipv4).any fun k => !allowed.contains k then
        .error (invalid s!"{path}.ipv4" "invalid_ipv4")
      else
        .ok (ofMembers
          ([("id", row.member "id"), ("name", row.member "name"),
            ("vlan_id", row.member "vlan_id"), ("mode", ipv4.member "mode"),
            ("address", if dhcp then .str "" else ipv4.member "address"),
            ("prefix", if dhcp then .int 0 else ipv4.member "prefix"),
            ("gateway", if dhcp || ipv4.member "gateway" = .null then .str ""
              else ipv4.member "gateway"),
            ("dns", if dhcp then .arr [] else (get "dns" ipv4).getD (.arr []))] ++
          match get "dns_search" row with
          | none => []
          | some search => [("dns_search", search)]))

def flatRows : Nat → List Json → Except ApiError (List Json)
  | _, [] => .ok []
  | i, row :: rest => do
    let flat ← flatRow i row
    let more ← flatRows (i + 1) rest
    .ok (flat :: more)

def semanticPolicy (v : Json) : Except ApiError String :=
  match get "policies" v with
  | none => .ok "token_only"
  | some p =>
    match asObject p with
    | some [_] =>
      match (get "confirm" p).bind asStr with
      | none => .error (invalid "network.policies.confirm" "invalid_policy")
      | some policy => .ok policy
    | _ => .error (invalid "network.policies" "invalid_policy")

def semanticKeys : List String :=
  ["version", "revision", "interface", "backend", "networks", "management", "ndi", "audio",
    "policies"]

def flatDocument (v : Json) (policy : String) (rows : List Json) : Json :=
  ofMembers
    [("interface", v.member "interface"), ("backend", v.member "backend"), ("networks", .arr rows),
      ("roles", ofMembers
        [("management", v.member "management"), ("ndi", v.member "ndi"),
          ("audio", v.member "audio")]),
      ("confirm_policy", .str policy)]

def importSemantic (text : Message) : Except ApiError (Nat × NetworkProfiles) := do
  if maxMessage < text.length then .error (invalid "network" "message_too_large") else pure ()
  let v ← text.value.elim (.error (invalid "network" "invalid_document")) .ok
  if (asObject v).isNone || (keys v).any (fun k => !semanticKeys.contains k) then
    .error (invalid "network" "invalid_document")
  else pure ()
  if asU64 (v.member "version") ≠ some 1 then
    .error (invalid "network.version" "invalid_version_revision")
  else pure ()
  let revision ← (asU64 (v.member "revision")).elim
    (.error (invalid "network.revision" "invalid_version_revision")) .ok
  let policy ← semanticPolicy v
  let rows ← (asArray (v.member "networks")).elim
    (.error (invalid "network.networks" "invalid_type")) .ok
  let converted ← flatRows 0 rows
  let p ← parse (.ofJson floatLen (flatDocument v policy converted))
  let p ← validate p p
  pure (revision, p)

end NdimonR.Engine
