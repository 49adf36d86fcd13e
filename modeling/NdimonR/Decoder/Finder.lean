import NdimonR.Decoder.NdiFollower
import NdimonR.Decoder.SdkText

/-! The finder: one loop that follows the NDI domain, rebuilds the SDK's finder and publishes the
sources it sees. The files it writes are written. -/

namespace NdimonR.Decoder.Finder

open Json SdkText

structure FindSettings where
  useDiscoveryServer : Bool := false
  discoveryServerIp : String := ""
  extraIps : String := ""
  groups : String := ""
  rxpm : String := "RUDP"
  deriving DecidableEq

/-- The settings of a followed domain. -/
def FindSettings.of (n : NdiConfig) : FindSettings where
  useDiscoveryServer := n.finder.discoveryServerMode == "NDIDisServEn"
  discoveryServerIp := n.finder.discoveryServerIp
  extraIps := n.offSubnetIps
  groups := n.group.groups
  rxpm := n.transport.rxpm

/-- The files the settings come from until the domain is followed. -/
structure BootFiles where
  findSettings : Json := .null
  ndiConfig : Json := .null
  ndiGroup : Json := .null
  receiveSettings : Json := .null

def fileSettings (f : BootFiles) : Result FindSettings := do
  let useDiscoveryServer ← if readable f.findSettings then do
      .ok ((← valueOr getString f.findSettings "NDIDisServ" "") == "NDIDisServEn")
    else .ok false
  let discoveryServerIp ← if readable f.findSettings then
      valueOr getString f.findSettings "NDIDisServIP" ""
    else .ok ""
  let extraIps := match f.ndiConfig with
    | .str s => s
    | _ => ""
  let groups ← if readable f.ndiGroup then valueOr getString f.ndiGroup "ndi_groups" "public"
    else .ok ""
  let rxpm ← if readable f.receiveSettings then valueOr getString f.receiveSettings "Rxpm" "RUDP"
    else .ok "RUDP"
  .ok { useDiscoveryServer, discoveryServerIp, extraIps, groups, rxpm }

/-- Once followed, the settings come from memory. -/
def loadSettings (follower : NdiFollower) (f : BootFiles) : Result FindSettings :=
  match follower.config with
  | some n => .ok (.of n)
  | none => fileSettings f

/-- The part of the decoder's settings that the SDK's file is about. -/
def FindSettings.config (s : FindSettings) : Config where
  transport.rxpm := s.rxpm
  finder := {
    discoveryServerMode := if s.useDiscoveryServer then "NDIDisServEn" else "NDIDisServDis"
    discoveryServerIp := s.discoveryServerIp }
  ndiGroup.groups := s.groups
  offSubnetIps := s.extraIps

def sdkFile (env : Surroundings) (s : FindSettings) : String := sdkConfig env s.config

/-- What a finder is created with. -/
structure FindCreate where
  showLocalSources : Bool
  groups : Option String
  extraIps : Option String
  deriving DecidableEq

def findCreate (s : FindSettings) : FindCreate :=
  let extra := if s.useDiscoveryServer && s.discoveryServerIp ≠ "" then
      if s.extraIps = "" then s.discoveryServerIp else s.discoveryServerIp ++ "," ++ s.extraIps
    else s.extraIps
  { showLocalSources := true
    groups := if s.groups = "" then none else some s.groups
    extraIps := if extra = "" then none else some extra }

/-! ### Sources -/

/-- A source as the SDK lists it; either pointer may be null. -/
structure Source where
  ndiName : Option String
  urlAddress : Option String
  deriving DecidableEq

@[ext] structure SrcEntry where
  name : String
  ip : String
  deriving DecidableEq

def copySources (sources : List Source) : List SrcEntry :=
  sources.map fun s => ⟨s.ndiName.getD "", s.urlAddress.getD ""⟩

/-- Another number of sources, or another name or address at some place. -/
def differs : List SrcEntry → List SrcEntry → Bool
  | [], [] => false
  | s :: current, t :: last => s.name ≠ t.name || s.ip ≠ t.ip || differs current last
  | _, _ => true

/-! ### The process -/

/-- Null stands for a file that is not there. -/
structure Files where
  sdk : String := ""
  cache : Json := .null
  sourceList : Json := .null
  webui : Json := .null
  deriving DecidableEq

structure State where
  follower : NdiFollower := {}
  settings : FindSettings
  finder : Option FindCreate := none
  lastList : List SrcEntry := []
  files : Files
  left : Bool := false

/-- One try at the SDK: what surrounds the two writes of its file, what initializing leaves in the
file, and whether the two calls succeed. -/
structure Attempt where
  before : Surroundings
  rewritten : Option String
  initializes : Bool
  after : Surroundings
  creates : Bool

namespace State

def listEntries (sources : List SrcEntry) : SortedMap String Json :=
  sources.foldl (fun m s => if s.name = "" then m else m.insert s.name (.str s.ip))
    (SortedMap.empty.insert "None" (.str "None"))

def writeSourceList (sources : List SrcEntry) (s : State) : State :=
  let names := (sources.filter fun x => x.name ≠ "").map fun x => Json.str x.name
  { s with
    files.sourceList := .obj [("count", .int (sources.length + 1)),
      ("list", .obj (listEntries sources).entries)]
    files.webui := .obj [("ndi", .arr (.str "None" :: names))] }

def writeNdiSdkConfig (env : Surroundings) (s : State) : State :=
  { s with files.sdk := sdkFile env s.settings }

def recreate (creates : Bool) (s : State) : State :=
  { s with finder := if creates then some (findCreate s.settings) else none }

/-- The file is written before the SDK reads it and again after the SDK may have rewritten it. -/
def bringUp (a : Attempt) (s : State) : State :=
  let s := s.writeNdiSdkConfig a.before
  let s := { s with files.sdk := a.rewritten.getD s.files.sdk }
  if a.initializes then (s.writeNdiSdkConfig a.after).recreate a.creates else s

/-- The SDK is brought down and up with the new settings, or again with the previous ones. -/
def rebuild (n : NdiConfig) (first fallback : Attempt) (s : State) : Bool × State :=
  let s := { s with finder := none }
  let next := { s with settings := .of n }.bringUp first
  if next.finder.isSome then (true, { next with lastList := [] })
  else (false, { next with settings := s.settings }.bringUp fallback)

end State

inductive Reply where
  | status (alive : Bool) (revision : Option Nat)
  | applied (revision : Nat)
  | failure (error : String)
  deriving DecidableEq

namespace State

/-- `apply_config`, then the request is kept for the next start. -/
def applyConfig (request : Json) (first fallback : Attempt) (s : State) : Reply × State :=
  match s.follower.examine request none with
  | .error e => (.failure e, s)
  | .ok (next, document, candidate) =>
    let (ok, s) :=
      if s.follower.config.isNone || s.follower.document ≠ document then
        s.rebuild candidate first fallback
      else (true, s)
    if ok then
      (.applied next, { s with
        follower := ⟨.commit next, some candidate, document⟩
        files.cache := request })
    else (.failure "ndi: finder recreation failed", s)

/-- One connection; a line that could not be read or parsed is an error. -/
def serve (line : Result Json) (first fallback : Attempt) (s : State) : Reply × State :=
  match line with
  | .error e => (.failure e, s)
  | .ok request =>
    match valueOr getString request "action" "" with
    | .error e => (.failure e, s)
    | .ok action =>
      if action = "status" ∨ action = "health" then
        (.status s.finder.isSome
          (if s.follower.revision.applied then some s.follower.revision.value else none), s)
      else if action ≠ "apply_config" then (.failure "unknown action", s)
      else s.applyConfig request first fallback

end State

/-- What a tick finds: whether the selected network has moved, the content of the parameter file,
and what a `-run` would find. -/
structure Tick where
  moved : Bool := false
  param : String := ""
  files : BootFiles := {}
  env : Surroundings
  creates : Bool := true

/-- The rest of an iteration after the requests. -/
structure Slice where
  tick : Option Tick
  sourcesChanged : Bool
  sources : List Source

namespace State

def onTick (t : Tick) (s : State) : State :=
  if t.moved then { s with left := true }
  else if t.param = "-run" then
    let s := { s with finder := none }
    match loadSettings s.follower t.files with
    -- The exception ends the process.
    | .error _ => { s with left := true }
    | .ok settings =>
      let s := ({ s with settings }.writeNdiSdkConfig t.env).recreate t.creates
      if s.finder.isSome then { s with lastList := [] } else { s with left := true }
  else if t.param = "-rs" then { s.writeSourceList [] with lastList := [] }
  else s

/-- What comes before the list is read. -/
def beforeLook (x : Slice) (s : State) : State :=
  if s.finder.isNone then { s with left := true }
  else
    match x.tick with
    | some t => s.onTick t
    | none => s

def reads (x : Slice) (s : State) : Bool :=
  !(s.beforeLook x).left && (x.tick.isSome || x.sourcesChanged)

def look (sources : List Source) (s : State) : State :=
  let current := copySources sources
  if differs current s.lastList then { s.writeSourceList current with lastList := current } else s

def slice (x : Slice) (s : State) : State :=
  if s.reads x then (s.beforeLook x).look x.sources else s.beforeLook x

end State

inductive Act where
  | request (line : Result Json) (first fallback : Attempt)
  | slice (x : Slice)

def step (s : State) (a : Act) : Option State :=
  if s.left then none
  else
    match a with
    | .request line first fallback => some (s.serve line first fallback).2
    | .slice x => some (s.slice x)

/-- `main` takes up what an earlier process kept; `run_continuous` gives up where the SDK does not
come up. -/
def start (files : Files) (boot : BootFiles) (a : Attempt) : Option State :=
  let follower := (NdiFollower.applyConfig files.cache none {}).2
  match loadSettings follower boot with
  | .error _ => none
  | .ok settings =>
    let s := State.bringUp a { follower, settings, files }
    if s.finder.isSome then some s else none

/-! ### What the steps do -/

theorem differs_eq_false_iff (current last : List SrcEntry) :
    differs current last = false ↔ current = last := by
  induction current generalizing last with
  | nil => cases last <;> simp [differs]
  | cons s current ih =>
    cases last with
    | nil => simp [differs]
    | cons t last => simp [differs, ih, SrcEntry.ext_iff, and_assoc]

end NdimonR.Decoder.Finder
