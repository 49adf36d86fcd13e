import NdimonR.Privd.Schema

/-! Plugin manifests and their admission. `Manifest.validate` is shared by the builder and the
privileged installer; an accepted manifest satisfies every clause of `validate_ok_iff`. -/

namespace NdimonR.Privd

open Text

variable (floatLen : ℚ → Nat)

inductive Error where
  | invalid (field reason : String)
  | permissionDenied
  | busy
  | failed (step reason : String) (exitCode : Option Int)
  | unsupported (what : String)
  | internal (message : String)
deriving DecidableEq

def plugin (s : String) : Bool :=
  decide (2 ≤ len s ∧ len s ≤ 32) && startsWith isAsciiLowercase s &&
    all (fun c => isAsciiLowercase c || isAsciiDigit c || c == '-') s

def debianVersion (s : String) : Bool :=
  s ≠ "" && decide (len s ≤ 128) && startsWith isAsciiDigit s &&
    all (fun c => isAsciiAlphanumeric c || ".+:~-".toList.contains c) s

def pluginUnit (s : String) : Bool :=
  decide (len s ≤ 200) && endsWithText ".service" s &&
    all (fun c => isAsciiAlphanumeric c || "_@.-".toList.contains c) s

abbrev PluginName := { s : String // plugin s = true }

abbrev PluginCommandName := { s : String // plugin s = true }

abbrev DebianVersion := { s : String // debianVersion s = true }

abbrev PluginUnit := { s : String // pluginUnit s = true }

structure Process where
  exec : String
  args : List String

structure StateSchema where
  schema : Json
  default : Json

structure CommandSchema where
  input : Json
  output : Json

structure Manifest where
  name : PluginName
  schemaVersion : Option Nat := none
  process : Option Process := none
  state : Option StateSchema := none
  commands : SortedMap String CommandSchema := .empty
  events : List String := []
  version : DebianVersion
  title : String
  minNdimon : DebianVersion
  icon : String := "bi-puzzle"
  routes : String := "routes.js"
  ui : String := "ui.html"
  backup : Option String := some "backup.js"
  install : String := "install.sh"
  uninstall : String := "uninstall.sh"
  privCommands : List PluginCommandName := []
  services : List PluginUnit := []
  supplementaryGroups : List String := []
  readwritePaths : List String := []
  configFiles : List String := []

/-- One stem and one extension: the extension has no second dot. -/
def simpleFile (s : String) : Bool :=
  match s.toList.dropWhile (· ≠ '.') with
  | [] => false
  | _ :: ext =>
    let stem := s.toList.takeWhile (· ≠ '.')
    stem ≠ [] && ext ≠ [] && stem.all (fun c => isAsciiAlphanumeric c || c == '_' || c == '-') &&
      ext.all isAsciiAlphanumeric

def safeManifestPath (s : String) : Bool :=
  startsWith (· == '/') s && decide (1 < len s) &&
    all (fun c => isAsciiAlphanumeric c || "_./-".toList.contains c) s &&
    !(split '/' s).contains ".."

/-- Units no plugin may declare. -/
def hostUnits : List String :=
  ["ssh.service", "sshd.service", "ndimon-r.service", "ndimon-api.service",
    "ndimon-finder.service", "ndimon-control.service", "ndimon-watchdog.service"]

def permittedService (name unit : String) : Bool :=
  !hostUnits.contains unit &&
    (name == "tessera" && unit == "tesserad.service" ||
      name == "bluetooth" && unit == "bluealsa.service" ||
      unit == name ++ ".service" ||
      [name ++ "-", name ++ "@", "ndimon-" ++ name ++ ".", "ndimon-" ++ name ++ "-"].any
        (startsWithText · unit))

def privilegedGroups : List String :=
  ["root", "sudo", "wheel", "adm", "shadow", "disk", "docker", "lxd", "kmem", "systemd-journal",
    "ndimon", "ndimon-priv", "ndimon-priv-control", "ndimon-priv-api", "ndimon-control"]

def permittedGroup (name group : String) : Bool :=
  !privilegedGroups.contains group &&
    (name == "tessera" || !(["tessera", "tessera-admin"].contains group))

def relativePath (path : String) : Bool :=
  path ≠ "" && decide (len path ≤ 240) && (split '/' path).all fun p =>
    p ≠ "" && p ≠ "." && p ≠ ".." &&
      all (fun c => isAsciiAlphanumeric c || "._-".toList.contains c) p

def commandName (name : String) : Bool :=
  name ≠ "" && decide (len name ≤ 64) &&
    all (fun c => isAsciiLowercase c || isAsciiDigit c || c == '_' || c == '-') name

def writableBases : List String := ["/run/", "/var/lib/", "/etc/"]

/-- A writable path under one base: the plugin's own directory, what lies below it, and for one
plugin every path that starts like its name. -/
def writableUnder (name path base : String) : Bool :=
  path == base ++ name || startsWithText (base ++ name ++ "/") path ||
    name == "tessera" && startsWithText (base ++ "tessera") path

def writable (name path : String) : Bool := writableBases.any (writableUnder name path)

def consumedEvents : List String := ["state_changed", "observed", "drift", "resync"]

/-- The error of a refused declaration. -/
def refuse (condition : Bool) (field reason : String) : Except Error Unit :=
  if condition then .error (.invalid field reason) else .ok ()

def schemaError (result : Except String Unit) : Except Error Unit :=
  result.mapError (.invalid "manifest.process")

namespace Manifest

def commandRule (entry : String × CommandSchema) : Except Error Unit := do
  refuse (!commandName entry.1) "manifest.process" "invalid command name"
  schemaError (validateSchema floatLen entry.2.input)
  schemaError (validateSchema floatLen entry.2.output)

def validateProcess (m : Manifest) : Except Error Unit :=
  match m.process with
  | none =>
    refuse (m.schemaVersion.any (· ≠ 1) || m.state.isSome || !m.commands.isEmpty ||
      !m.events.isEmpty) "manifest.process" "v2 declarations require process"
  | some process => do
    refuse (m.schemaVersion ≠ some 2 || !relativePath process.exec || 32 < process.args.length ||
      process.args.any fun s => 1024 < len s || any isControl s)
      "manifest.process" "invalid process version, executable or arguments"
    match m.state with
    | none => .error (.invalid "manifest.process" "state schema required")
    | some state => do
      schemaError (validateSchema floatLen state.schema)
      refuse (state.default.asObject.isNone || state.schema.member "type" ≠ .str "object")
        "manifest.process" "state must be an object"
      schemaError (validateValue floatLen state.schema state.default)
      refuse (64 < m.commands.size) "manifest.process" "too many commands"
      m.commands.entries.forM (commandRule floatLen)
      refuse (!decide m.events.Nodup || m.events.any fun e => !consumedEvents.contains e)
        "manifest.process" "invalid or duplicate consumed event"

def entryFiles (m : Manifest) : List String :=
  [m.routes, m.ui, m.install, m.uninstall] ++ m.backup.toList

def iconRefused (icon : String) : Bool :=
  match stripPrefix "bi-" icon with
  | none => true
  | some rest =>
    rest = "" || !all (fun c => isAsciiLowercase c || isAsciiDigit c || c == '-') rest

def groupRule (name : PluginName) (group : String) : Except Error Unit := do
  refuse (!plugin group) "supplementary_groups"
    "plugin name must match [a-z][a-z0-9-]\x7b1,31\x7d"
  refuse (!permittedGroup name group) "supplementary_groups" "privileged group"

def validate (m : Manifest) (name : PluginName) (expected : Option DebianVersion) :
    Except Error Unit := do
  refuse (m.name ≠ name) "manifest.name" "plugin name mismatch"
  refuse (expected.any (· ≠ m.version)) "manifest.version" "bundle version mismatch"
  refuse (!decide (1 ≤ chars m.title ∧ chars m.title ≤ 40) || iconRefused m.icon) "manifest"
    "invalid title or icon"
  refuse (m.entryFiles.any fun s => !simpleFile s) "manifest" "invalid entry filename"
  refuse (!decide m.privCommands.Nodup || !decide m.services.Nodup ||
    !decide m.supplementaryGroups.Nodup || !decide m.readwritePaths.Nodup ||
    !decide m.configFiles.Nodup) "manifest" "duplicate declaration"
  m.supplementaryGroups.forM (groupRule name)
  m.services.forM fun unit => refuse (!permittedService name unit) "services" "unscoped service"
  (m.configFiles ++ m.readwritePaths).forM fun path =>
    refuse (!safeManifestPath path) "manifest" "invalid configuration path"
  m.readwritePaths.forM fun path =>
    refuse (!writable name path) "readwrite_paths" "unscoped writable path"
  m.validateProcess floatLen

end Manifest

inductive UnitAction where
  | start
  | stop
  | restart
  | reload
deriving DecidableEq

def UnitAction.asStr : UnitAction → String
  | .start => "start"
  | .stop => "stop"
  | .restart => "restart"
  | .reload => "reload"

/-- An entry of the plugin directory. `manifest` is what opening, checking and parsing its
`plugin.json` gives. -/
structure PluginEntry where
  fileName : String
  isDir : Bool
  broken : Bool
  manifest : Except Error Manifest

/-- The group table and the plugin directory of a host. Locking and listing the directory may
fail, and so may any of its entries. -/
structure Host where
  groupId : String → Except Error (Option Nat)
  plugins : Except Error (List (Except Error PluginEntry))

namespace Host

def permittedGroup (host : Host) (name group : String) : Except Error Bool :=
  if ["tessera", "tessera-admin"].contains group && name ≠ "tessera" then .ok false
  else if privilegedGroups.contains group then .ok false
  else if ["audio", "video", "render", "bluetooth", "tessera", "tessera-admin"].contains group then
    .ok true
  else (host.groupId group).map fun gid => gid.all (1000 ≤ ·)

def validateGroups (host : Host) (m : Manifest) : Except Error Unit :=
  m.supplementaryGroups.forM fun group => do
    let permitted ← host.permittedGroup m.name group
    if permitted then .ok () else .error .permissionDenied

def checkManifest (host : Host) (m : Manifest) (name : PluginName)
    (expected : Option DebianVersion) : Except Error Unit := do
  m.validate floatLen name expected
  host.validateGroups m

def installed (host : Host) (entry : PluginEntry) (name : PluginName) : Except Error Manifest := do
  let manifest ← entry.manifest
  host.checkManifest floatLen manifest name none
  .ok manifest

/-- The entry is a whole plugin whose manifest declares the unit. -/
def allows (host : Host) (unit : PluginUnit) (entry : PluginEntry) : Bool :=
  if h : plugin entry.fileName = true then
    entry.isDir && !entry.broken &&
      match host.installed floatLen entry ⟨entry.fileName, h⟩ with
      | .error _ => false
      | .ok manifest => permittedService entry.fileName unit && manifest.services.contains unit
  else false

/-- The arguments `systemctl` is run with. -/
def service (host : Host) (unit : PluginUnit) (action : UnitAction) :
    Except Error (List String) := do
  refuse (action = .reload) "action" "start/stop/restart only"
  let entries ← host.plugins
  let entries ← entries.mapM id
  if entries.any (host.allows floatLen unit) then
    .ok [action.asStr, "--no-block", "--", unit]
  else .error .permissionDenied

end Host

@[simp] theorem refuse_ok {c : Bool} {field reason : String} :
    refuse c field reason = .ok () ↔ c = false := by
  cases c <;> simp [refuse]

theorem bind_ok {x k : Except Error Unit} :
    (do x; k) = .ok () ↔ x = .ok () ∧ k = .ok () := by
  cases x <;> simp [bind, Except.bind]

theorem forM_ok_iff {α : Type} {f : α → Except Error Unit} {l : List α} :
    l.forM f = .ok () ↔ ∀ x ∈ l, f x = .ok () := by
  induction l with
  | nil => simp [List.forM, pure, Except.pure]
  | cons x l ih =>
    change (do f x; l.forM f) = .ok () ↔ _
    rw [bind_ok, ih]
    simp

namespace Manifest

variable {floatLen}

/-- What an accepted manifest satisfies, and all it has to. -/
theorem validate_ok_iff {m : Manifest} {name : PluginName} {expected : Option DebianVersion} :
    m.validate floatLen name expected = .ok () ↔
      m.name = name ∧ (∀ v, expected = some v → v = m.version) ∧
      (1 ≤ chars m.title ∧ chars m.title ≤ 40) ∧ iconRefused m.icon = false ∧
      (∀ s ∈ m.entryFiles, simpleFile s = true) ∧
      (m.privCommands.Nodup ∧ m.services.Nodup ∧ m.supplementaryGroups.Nodup ∧
        m.readwritePaths.Nodup ∧ m.configFiles.Nodup) ∧
      (∀ group ∈ m.supplementaryGroups, plugin group = true ∧
        permittedGroup name group = true) ∧
      (∀ unit ∈ m.services, permittedService name unit = true) ∧
      (∀ path ∈ m.configFiles ++ m.readwritePaths, safeManifestPath path = true) ∧
      (∀ path ∈ m.readwritePaths, writable name path = true) ∧
      m.validateProcess floatLen = .ok () := by
  have hv : expected.any (· ≠ m.version) = false ↔ ∀ v, expected = some v → v = m.version := by
    cases expected <;> simp
  have hf : m.entryFiles.any (fun s => !simpleFile s) = false ↔
      ∀ s ∈ m.entryFiles, simpleFile s = true := by
    simp
  simp only [validate, bind_ok, forM_ok_iff, refuse_ok, groupRule, hv, hf, Bool.not_eq_eq_eq_not,
    Bool.not_false, Bool.or_eq_false_iff, decide_eq_true_eq, decide_eq_false_iff_not, not_not,
    and_assoc]

end Manifest

namespace Host

variable {floatLen}

theorem mem_of_mapM_id {α : Type} {l : List (Except Error α)} {read : List α}
    (h : l.mapM id = .ok read) {x : α} (hx : x ∈ read) : .ok x ∈ l := by
  induction l generalizing read with
  | nil =>
    simp only [List.mapM_nil, pure, Except.pure, Except.ok.injEq] at h
    subst h
    cases hx
  | cons y l ih =>
    rw [List.mapM_cons] at h
    cases y with
    | error e => simp [bind, Except.bind] at h
    | ok y =>
      cases hl : l.mapM id with
      | error e => simp [hl, bind, Except.bind] at h
      | ok rest =>
        simp only [id, hl, bind, Except.bind, pure, Except.pure, Except.ok.injEq] at h
        subst h
        obtain rfl | hx := List.mem_cons.mp hx
        · exact List.mem_cons_self
        · exact List.mem_cons_of_mem _ (ih hl hx)

theorem installed_ok {host : Host} {entry : PluginEntry} {name : PluginName} {m : Manifest}
    (h : host.installed floatLen entry name = .ok m) :
    entry.manifest = .ok m ∧ m.validate floatLen name none = .ok () := by
  simp only [installed] at h
  cases hm : entry.manifest with
  | error e => simp [hm, bind, Except.bind] at h
  | ok m' =>
    cases hc : host.checkManifest floatLen m' name none with
    | error e => simp [hm, hc, bind, Except.bind] at h
    | ok u =>
      simp only [hm, hc, bind, Except.bind, Except.ok.injEq] at h
      subst h
      exact ⟨rfl, (bind_ok.mp hc).1⟩

/-- A unit is controlled only for a whole plugin under whose name a manifest that declares the
unit was accepted. -/
theorem service_ok {host : Host} {unit : PluginUnit} {action : UnitAction} {argv : List String}
    (h : host.service floatLen unit action = .ok argv) :
    ∃ (name : PluginName) (m : Manifest), m.validate floatLen name none = .ok () ∧
      unit ∈ m.services ∧ ∃ entries, host.plugins = .ok entries ∧
      ∃ entry, .ok entry ∈ entries ∧ entry.fileName = name.val ∧ entry.isDir = true ∧
        entry.broken = false ∧ entry.manifest = .ok m := by
  simp only [service] at h
  cases hr : refuse (action = .reload) "action" "start/stop/restart only" with
  | error e => simp [hr, bind, Except.bind] at h
  | ok u =>
  cases hp : host.plugins with
  | error e => simp [hr, hp, bind, Except.bind] at h
  | ok entries =>
  cases hm : entries.mapM id with
  | error e => simp [hr, hp, hm, bind, Except.bind] at h
  | ok read =>
  have hany : read.any (host.allows floatLen unit) = true := by
    by_contra hn
    simp [hr, hp, hm, hn, bind, Except.bind] at h
  obtain ⟨entry, hentry, ha⟩ := List.any_eq_true.mp hany
  unfold allows at ha
  split at ha
  · rename_i hname
    simp only [Bool.and_eq_true, Bool.not_eq_eq_eq_not, Bool.not_true] at ha
    obtain ⟨⟨hdir, hbroken⟩, hinst⟩ := ha
    split at hinst
    · cases hinst
    · rename_i m hm'
      obtain ⟨hman, hval⟩ := installed_ok hm'
      simp only [Bool.and_eq_true, List.contains_iff_mem] at hinst
      exact ⟨⟨entry.fileName, hname⟩, m, hval, hinst.2, entries, rfl, entry,
        mem_of_mapM_id hm hentry, rfl, hdir, hbroken, hman⟩
  · cases ha

end Host

end NdimonR.Privd
