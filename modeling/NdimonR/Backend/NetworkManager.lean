import NdimonR.Backend.Common
import NdimonR.Library.Effects
import NdimonR.Library.Outcome

/-! NetworkManager: the connections planned for a profile, their activation and their restore. -/

namespace NdimonR.Backend.NetworkManager

open Types Text Engine Backend

/-! ### What nmcli keeps -/

/-- Properties as nmcli prints and takes them. -/
abbrev Properties := SortedMap String String

structure Store where
  connections : SortedMap String Properties := .empty
  active : SortedMap String Unit := .empty
  files : SortedMap String Image := .empty

/-- The calls that change something. -/
inductive Call where
  | add (uuid interface parent : String) (tag : Nat)
  | modify (uuid : String) (values : Properties)
  | up (uuid : String)
  | down (uuid : String)
  | delete (uuid : String)
  | reload

/-- What NetworkManager decides on its own. -/
structure Manager where
  /-- The properties of a new VLAN connection. -/
  fresh : (uuid interface parent : String) → (tag : Nat) → Properties
  accepts : String → Properties → Bool
  activates : String → Properties → Bool
  /-- What a call does to the profile files. -/
  saves : Call → SortedMap String Image → SortedMap String Image
  /-- The file a connection was loaded from, or empty. -/
  filename : String → SortedMap String Image → String
  /-- A file's bytes as text, what is no text replaced. -/
  lossy : List UInt8 → String
  exitCode : Call → Nat

def override (props values : Properties) : Properties :=
  values.entries.foldl (fun m e => m.insert e.1 e.2) props

/-- What a call does to connections, where it succeeds. -/
def Manager.act (m : Manager) (s : Store) : Call → Option Store
  | .add uuid interface parent tag =>
    if s.connections.contains uuid then none
    else some { s with connections := s.connections.insert uuid (m.fresh uuid interface parent tag) }
  | .modify uuid values =>
    match s.connections.get? uuid with
    | none => none
    | some props =>
      if m.accepts uuid (override props values) then
        some { s with connections := s.connections.insert uuid (override props values) }
      else none
  | .up uuid =>
    match s.connections.get? uuid with
    | none => none
    | some props =>
      if m.activates uuid props then some { s with active := s.active.insert uuid () } else none
  | .down uuid =>
    if s.active.contains uuid then some { s with active := s.active.erase uuid } else none
  | .delete uuid =>
    if s.connections.contains uuid then
      some { s with connections := s.connections.erase uuid, active := s.active.erase uuid }
    else none
  | .reload => some s

def Manager.exec (m : Manager) (call : Call) (s : Store) : Result Store :=
  match m.act s call with
  | some next => .ok { next with files := m.saves call s.files }
  | none => .error (failed "command" ("nmcli_exit_" ++ toString (m.exitCode call)))

/-! ### Running commands -/

/-- What can happen to the next command: it is carried out, refused, carried out and reported as
failed, or never gets to run. -/
inductive Fault where
  | pass
  | refused (error : ApiError)
  | late (error : ApiError)
  | crash

structure World where
  store : Store
  faults : List Fault := []

abbrev Program := Proc World ApiError

def perform {α : Type} (f : Store → Result (α × Store)) : Program α := fun w =>
  let next := { w with faults := w.faults.drop 1 }
  let done := match f w.store with
    | .ok (_, s) => { next with store := s }
    | .error _ => next
  match w.faults.head? with
  | some .crash => (.crash, next)
  | some (.refused e) => (.err e, next)
  | some (.late e) => (.err e, done)
  | _ =>
    match f w.store with
    | .ok (a, _) => (.ok a, done)
    | .error e => (.err e, next)

def ask {α : Type} (view : Store → Result α) : Program α := perform fun s => (view s).map (·, s)

def run (m : Manager) (call : Call) : Program Unit := perform fun s => (m.exec call s).map ((), ·)

def Store.put (s : Store) (path : String) (image : Option Image) : Store :=
  { s with files := match image with
    | some image => s.files.insert path image
    | none => s.files.erase path }

/-- Writes or removes a file. -/
def replace (path : String) (image : Option Image) : Program Unit := perform fun s =>
  .ok ((), s.put path image)

/-! ### Reading -/

def fields : List String :=
  ["connection.interface-name", "connection.autoconnect", "connection.wait-device-timeout",
    "ipv4.method", "ipv4.addresses", "ipv4.gateway", "ipv4.dns", "ipv4.dns-search",
    "ipv4.never-default", "ipv4.ignore-auto-dns", "ipv4.ignore-auto-routes", "ipv4.route-metric",
    "ipv4.may-fail", "ipv4.dhcp-send-hostname", "ipv6.method", "ipv6.ip6-privacy"]

/-- What is read back after a write. -/
def verified : List String :=
  ["ipv4.method", "ipv4.addresses", "ipv4.gateway", "ipv4.dns", "ipv4.dns-search",
    "ipv4.never-default", "ipv4.ignore-auto-dns", "ipv4.ignore-auto-routes", "ipv4.route-metric",
    "ipv6.method"]

def validUuid (s : String) : Bool :=
  len s == 36 && s.toList.zipIdx.all fun e =>
    if [8, 13, 18, 23].contains e.2 then e.1 == '-' else isAsciiHexdigit e.1

def commandFailed : ApiError := failed "command" "nmcli_exit_10"

def nmField (s : Store) (uuid field : String) : Result String :=
  if !validUuid uuid then .error (unsupported "missing_parent_connection")
  else
    match (s.connections.get? uuid).bind (·.get? field) with
    | some value => .ok (trim value)
    | none => .error commandFailed

def nmSnapshot (s : Store) (uuid : String) : Result Properties := do
  let values ← fields.mapM fun field => (nmField s uuid field).map (field, ·)
  .ok (.ofList values)

def nmUuids (s : Store) : Result (List String) :=
  if s.connections.keys.all validUuid then .ok s.connections.keys
  else .error (unsupported "foreign_connection")

def empty (s : String) : Bool := s = "" || s = "--"

def elements (s : String) : List String :=
  if empty s then []
  else ((s.toList.splitOnP fun c => c == ',' || c == ' ').filter (· ≠ [])).map String.ofList

def boolean (s : String) : String :=
  let s := toAsciiLowercase s
  if ["yes", "true", "on", "1"].contains s then "yes"
  else if ["no", "false", "off", "0"].contains s then "no"
  else s

def containsText (lit : String) (bytes : List UInt8) : Bool :=
  bytes.tails.any fun t => (Text.bytes lit).isPrefixOf t

def includesText (lit s : String) : Bool := s.toList.tails.any fun t => lit.toList.isPrefixOf t

/-- Lists compare by element; `yes` and `no` accept their aliases. -/
def sameValue (field want got : String) : Bool :=
  if endsWithText "never-default" field || includesText "ignore-auto" field then
    boolean want = boolean got
  else elements want = elements got

/-- NetworkManager's own bookkeeping in a profile file. -/
def nmBookkeeping (line : String) : Bool :=
  let line := Text.replace '\'' '"' (trim line)
  startsWithText "connection.timestamp:" line || startsWithText "timestamp=" line ||
    line = "ipv6.ip6-privacy: \"-1\"" || line = "ip6-privacy=-1"

def profileLines (lossy : List UInt8 → String) (image : Image) : List String :=
  (lines (lossy image.bytes)).filter fun line => !nmBookkeeping line

/-- The before-image, as far as NetworkManager's own saving goes. -/
def sameProfile (lossy : List UInt8 → String) : (now before : Option Image) → Bool
  | none, none => true
  | some now, some before =>
    now.bytes = before.bytes || profileLines lossy now = profileLines lossy before
  | _, _ => false

/-- A whole-file image of these would keep a secret in the journal. -/
def holdsCredentials (bytes : List UInt8) : Bool :=
  let lower := bytes.map fun b => if 65 ≤ b ∧ b ≤ 90 then b + 32 else b
  ["[802-1x]", "[wifi-security]", "[802-11-wireless-security]", "[vpn]", "[wireguard]", "[pppoe]",
    "password", "psk", "private-key", "auth:"].any fun marker => containsText marker lower

/-! ### Planning -/

structure NmChange where
  uuid : String
  interface : String
  tag : Option Nat
  before : Option Properties
  active : Bool
  after : Properties
  removeAfterCommit : Bool
  files : List NmFile

def metric (m : Metadata) (n : NetworkProfile) : Nat :=
  match n.mode with
  | .dhcp => m.dhcpMetric
  | .static => m.staticMetric

/-- `bind`: write the interface binding. Not for a Netplan-owned parent. -/
def settings (n : Option NetworkProfile) (p : NetworkProfiles) (metadata : Metadata) (name : String)
    (bind : Bool) : Properties :=
  let management := n.any fun n => n.id == p.roles.management
  let denied := if management then "no" else "yes"
  let values : Properties := .ofList [("connection.interface-name", name),
    ("connection.autoconnect", "yes"), ("connection.wait-device-timeout", "0"),
    ("ipv4.method", (n.map fun n => if n.mode = .dhcp then "auto" else "manual").getD "disabled"),
    ("ipv4.addresses", (n.map fun n =>
      if n.mode = .static then n.address ++ "/" ++ toString n.prefixLen else "").getD ""),
    ("ipv4.gateway", (n.map (·.gateway)).getD ""),
    ("ipv4.dns", (n.map fun n => unwords n.dns).getD ""),
    ("ipv4.dns-search", if management then (n.map fun n => unwords n.dnsSearch).getD "" else ""),
    ("ipv4.never-default", denied), ("ipv4.ignore-auto-dns", denied),
    ("ipv4.ignore-auto-routes", denied),
    ("ipv4.route-metric", toString ((n.map (metric metadata)).getD metadata.dhcpMetric)),
    ("ipv4.may-fail", "yes"), ("ipv4.dhcp-send-hostname", "no"), ("ipv6.method", "disabled")]
  if bind then values else values.erase "connection.interface-name"

def nmDirs : List String :=
  ["/etc/NetworkManager/system-connections", "/run/NetworkManager/system-connections"]

def profileDirs : List String := ["/etc/netplan", "/run/netplan"] ++ nmDirs

def writeBack (uuid : String) : String := "/etc/netplan/90-NM-" ++ uuid ++ ".yaml"

def nmNetplanOwned (m : Manager) (s : Store) (uuid : String) : Bool × String :=
  let filename := m.filename uuid s.files
  (startsWithText "netplan-" (((rsplitOnce '/' filename).map Prod.snd).getD filename) ||
    s.files.contains (writeBack uuid), filename)

/-- Before-images of every file a connection may live in. -/
def nmPersisted (s : Store) (uuid id filename : String) : Result (List NmFile) :=
  let loaded := (nmDirs.any fun dir => startsWithText (dir ++ "/") filename) &&
    !includesText "/../" filename
  let plain := id ≠ "" && all (fun c => isAsciiAlphanumeric c || [' ', '.', '_', '-'].contains c) id
  let named := s.files.entries.filter fun e =>
    ((rsplitOnce '/' e.1).any fun cut => profileDirs.contains cut.1) && containsText uuid e.2.bytes
  let paths := writeBack uuid :: (if loaded then [filename] else []) ++
    (if plain then nmDirs.map fun dir => dir ++ "/" ++ id ++ ".nmconnection" else []) ++
    named.map Prod.fst
  let distinct : SortedMap String Unit := .ofList (paths.map (·, ()))
  distinct.keys.mapM fun path =>
    if (s.files.get? path).any fun image => holdsCredentials image.bytes then
      .error (unsupported ("unsafe_configuration: " ++ path ++ " holds credentials"))
    else .ok ⟨path, s.files.get? path⟩

/-- What one connection is to be changed to. -/
structure Target where
  uuid : String
  interface : String
  tag : Option Nat
  row : Option NetworkProfile
  existed : Bool
  removed : Bool

def beforeImage (s : Store) (t : Target) : Result (Option Properties) :=
  if t.existed then (nmSnapshot s t.uuid).map some else .ok none

/-- The id and the file name a connection has or will have. -/
def identity (m : Manager) (s : Store) (parentFile : String) (t : Target) : Result (String × String) :=
  match t.tag, t.existed with
  | none, _ => (nmField s t.uuid "connection.id").map (·, parentFile)
  | some _, true => (nmField s t.uuid "connection.id").map (·, m.filename t.uuid s.files)
  | some _, false => .ok ("ndimon-vlan-" ++ t.interface, "")

def changeFiles (m : Manager) (s : Store) (owner : Bool × String) (t : Target) :
    Result (List NmFile) :=
  if owner.1 then do
    let (id, filename) ← identity m s owner.2 t
    nmPersisted s t.uuid id filename
  else .ok []

def addChange (m : Manager) (s : Store) (p : NetworkProfiles) (metadata : Metadata)
    (parent : String) (t : Target) : Result NmChange := do
  let owner := nmNetplanOwned m s parent
  let before ← beforeImage s t
  let files ← changeFiles m s owner t
  .ok { uuid := t.uuid, interface := t.interface, tag := t.tag, before
        active := s.active.contains t.uuid
        after := if t.removed then .singleton "connection.autoconnect" "no"
          else settings t.row p metadata t.interface (t.tag.isSome || !owner.1)
        removeAfterCommit := t.removed, files }

/-- `draw` is what the n-th row's new UUID would be. -/
def vlanTarget (draw : Nat → Result String) (p : NetworkProfiles) (metadata : Metadata)
    (e : NetworkProfile × Nat) : Result Target :=
  let interface := ifname p e.1
  match metadata.nmOwned.get? interface with
  | some uuid => .ok ⟨uuid, interface, e.1.vlanId, some e.1, true, false⟩
  | none => (draw e.2).map fun uuid => ⟨uuid, interface, e.1.vlanId, some e.1, false, false⟩

def removedTarget (old : NetworkProfiles) (metadata : Metadata) (n : NetworkProfile) : Result Target :=
  match metadata.nmOwned.get? (ifname old n) with
  | some uuid => .ok ⟨uuid, ifname old n, n.vlanId, none, true, true⟩
  | none => .error (unsupported "foreign_connection")

def parentUuid (metadata : Metadata) : Result String :=
  match metadata.nmParentUuid with
  | some uuid => .ok uuid
  | none => .error (unsupported "missing_parent_connection")

def planNm (m : Manager) (s : Store) (draw : Nat → Result String) (old p : NetworkProfiles)
    (metadata : Metadata) : Result (List NmChange) := do
  let uuid ← parentUuid metadata
  let parent ← addChange m s p metadata uuid
    ⟨uuid, p.interface, none, p.networks.find? (·.vlanId.isNone), true, false⟩
  let vlans ← (p.networks.filter (·.vlanId.isSome)).zipIdx.mapM fun e => do
    addChange m s p metadata uuid (← vlanTarget draw p metadata e)
  let gone := old.networks.filter fun n =>
    n.vlanId.isSome && !p.networks.any fun m => m.vlanId = n.vlanId
  let removed ← gone.mapM fun n => do
    addChange m s p metadata uuid (← removedTarget old metadata n)
  .ok (parent :: vlans ++ removed)

/-! ### Activating and restoring -/

def snapshotFile (path : String) : Program (Option Image) := ask fun s => .ok (s.files.get? path)

/-- Puts the persisted files back byte for byte; true when any differed. -/
def restoreNmFiles : List NmFile → Program Bool
  | [] => pure false
  | file :: rest => do
    let now ← snapshotFile file.path
    if now ≠ file.before then do
      replace file.path file.before
      let _ ← restoreNmFiles rest
      pure true
    else restoreNmFiles rest

/-- The id of a connection, for a message. -/
def shownId (uuid : String) : Program String := do
  let id ← Proc.attempt (ask fun s => nmField s uuid "connection.id")
  pure (match id with
    | .ok id => id
    | .error _ => "")

/-- The reads settle at once: nothing but the commands changes the store. -/
def verifyFiles (m : Manager) (change : NmChange) : Program Unit := do
  let wrong ← ask fun s => .ok (change.files.find? fun file =>
    !sameProfile m.lossy (s.files.get? file.path) file.before)
  match wrong with
  | none => pure ()
  | some file => do
    let id ← shownId change.uuid
    Proc.fail (failed "verify_backend" ("profile_file_restore_mismatch: " ++ file.path ++
      " (connection " ++ id ++ " (" ++ change.uuid ++ "))"))

/-- What is wrong with a field, where it does not read as wanted. -/
def readsOtherwise (uuid : String) (want : Properties) (field : String) : Program (Option String) :=
  match want.get? field with
  | none => pure none
  | some want => do
    let got ← ask fun s => nmField s uuid field
    pure (if sameValue field want got then none
      else some (field ++ " reads '" ++ got ++ "', expected '" ++ want ++ "'"))

def differing (uuid : String) (want : Properties) : List String → Program (List String)
  | [] => pure []
  | field :: rest => do
    let what ← readsOtherwise uuid want field
    let more ← differing uuid want rest
    pure (what.toList ++ more)

def mismatch {α : Type} (code uuid what : String) : Program α := do
  let id ← shownId uuid
  Proc.fail (failed "verify_backend" (code ++ ": connection " ++ id ++ " (" ++ uuid ++ ") " ++ what))

def verifyRestored (change : NmChange) (before : Properties) : Program Unit := do
  let wrong ← differing change.uuid before verified
  if wrong.isEmpty then pure ()
  else mismatch "connection_restore_mismatch" change.uuid (String.intercalate "; " wrong)

def verifyWritten (change : NmChange) : Program Unit :=
  Proc.each (fun field => do
    let wrong ← readsOtherwise change.uuid change.after field
    match wrong with
    | none => pure ()
    | some what => mismatch "profile_property_not_applied" change.uuid what) verified

/-- Files go back, and NetworkManager reads them again when any differed. -/
def restoreFiles (m : Manager) (change : NmChange) : Program Unit := do
  let changed ← restoreNmFiles change.files
  Proc.when (changed = true) (run m .reload)

def isActive (uuid : String) : Program Bool := ask fun s => .ok (s.active.contains uuid)

def setActive (m : Manager) (uuid : String) (up : Bool) : Program Unit :=
  if up then run m (.up uuid)
  else do
    let active ← isActive uuid
    Proc.when (active = true) (run m (.down uuid))

/-- Undoes a connection the plan created. -/
def removeCreated (m : Manager) (present : List String) (change : NmChange) : Program Unit := do
  Proc.when (present.contains change.uuid = true) (run m (.delete change.uuid))
  restoreFiles m change
  verifyFiles m change

/-- Puts a connection back that was there before. -/
def restoreBefore (m : Manager) (change : NmChange) (before : Properties) : Program Unit := do
  run m (.modify change.uuid before)
  restoreFiles m change
  setActive m change.uuid change.active
  verifyRestored change before
  verifyFiles m change

def createVlan (m : Manager) (change : NmChange) : Program Unit :=
  match change.tag with
  | none => Proc.fail (unsupported "foreign_connection")
  | some tag =>
    match rsplitOnce '.' change.interface with
    | none => Proc.fail (unsupported "foreign_connection")
    | some (parent, _) => run m (.add change.uuid change.interface parent tag)

def apply (m : Manager) (present : List String) (change : NmChange) : Program Unit := do
  Proc.when (change.before = none ∧ present.contains change.uuid = false) (createVlan m change)
  run m (.modify change.uuid change.after)
  verifyWritten change
  setActive m change.uuid !change.removeAfterCommit

def restore (m : Manager) (present : List String) (change : NmChange) : Program Unit :=
  match change.before with
  | none => removeCreated m present change
  | some before => restoreBefore m change before

def activateNm (m : Manager) (changes : List NmChange) (restoring : Bool) : Program Unit := do
  let present ← ask nmUuids
  Proc.each (if restoring then restore m present else apply m present) changes

end NdimonR.Backend.NetworkManager
