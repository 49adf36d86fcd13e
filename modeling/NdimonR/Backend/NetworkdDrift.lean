import NdimonR.Backend.Ifupdown
import NdimonR.Backend.Networkd
import NdimonR.Library.Reading

/-! systemd-networkd: the files in the search roots that take an interface of a profile. -/

namespace NdimonR.Backend.Networkd

open Types Text Engine Backend Json

/-! ### The files -/

/-- A root hides what those before it have under the same name. -/
def roots : List String :=
  ["/usr/lib/systemd/network", "/usr/local/lib/systemd/network", "/run/systemd/network",
    "/etc/systemd/network"]

structure Host where
  files : SortedMap String String
  /-- What `ip -j -d link show` prints. -/
  links : Result Json
  glob : Ifupdown.Glob
  handoff : Bool := false
  handoffPaths : List String := []

/-- The name of a file in its directory. -/
def baseName (path : String) : String := ((rsplitOnce '/' path).map Prod.snd).getD path

def Host.list (host : Host) (directory extension : String) : List String :=
  host.files.keys.filter fun path =>
    (rsplitOnce '/' path).any fun e => e.1 = directory && endsWithText extension e.2

/-- The files of some directories, each under its name; of one name the last. -/
def Host.byName (host : Host) (directories : List String) (extension : String) :
    SortedMap String String :=
  directories.foldl (fun chosen d =>
    (host.list d extension).foldl (fun chosen path => chosen.insert (baseName path) path) chosen)
    .empty

def dropinDirectories (base : String) : List String := roots.map fun root => root ++ "/" ++ base ++ ".d"

def effectiveDropins (host : Host) (base : String) : List String :=
  (host.byName (dropinDirectories base) ".conf").values

/-- A text with the texts of its drop-ins behind it. -/
def merged (host : Host) (text : String) (dropins : List String) : String :=
  dropins.foldl (fun text path => text ++ "\n" ++ (host.files.get? path).getD "") text

def effectiveNetworkdIfPresent (host : Host) (path : String) : Result (Option String) :=
  if !(((rsplitOnce '/' path).map Prod.fst).any fun parent => roots.contains parent) then
    .error (unsupported "unexpected_configuration_path")
  else .ok ((host.files.get? path).map fun text =>
    merged host text (effectiveDropins host (baseName path)))

/-! ### Match conditions -/

structure Selectors where
  names : List String := []
  macs : List String := []
  unknown : Bool := false

def Selectors.add (s : Selectors) (e : Entry) : Selectors :=
  if e.section = "Match" then
    if e.key = "Name" then { s with names := resetList s.names e.value }
    else if e.key = "MACAddress" then { s with macs := resetList s.macs e.value }
    else if e.value ≠ "" then { s with unknown := true }
    else s
  else s

def selectors (entries : List Entry) : Selectors := entries.foldl Selectors.add {}

/-- The patterns left to try, and what those before them found. -/
def tryPatterns (glob : Ifupdown.Glob) (name : String) :
    List String → (positive anyPositive : Bool) → Result Bool
  | [], positive, anyPositive => .ok (!anyPositive || positive)
  | p :: rest, positive, anyPositive =>
    let negative := (stripPrefix "!" p).isSome
    match glob ((stripPrefix "!" p).getD p) with
    | none => .error (unsupported "unsafe_configuration")
    | some test =>
      if negative && test name then .ok false
      else if negative then tryPatterns glob name rest positive anyPositive
      else tryPatterns glob name rest (positive || test name) true

def patternList (glob : Ifupdown.Glob) (patterns : List String) (name : String) : Result Bool :=
  if patterns.isEmpty then .ok true else tryPatterns glob name patterns false false

/-- The address of a link; empty where there is none. -/
def linkMac (links : Json) (name : String) : Result String :=
  match asArray links with
  | none => .error (failed "probe" "invalid_output")
  | some rows =>
    .ok (((rows.find? fun l => l.member "ifname" == .str name).bind fun l =>
      asStr (l.member "address")).getD "")

def sameAddress (a b : String) : Bool := toAsciiLowercase a = toAsciiLowercase b

/-- Match keys are conjunctive; other selectors are not looked at here. -/
def Selectors.matches (s : Selectors) (glob : Ifupdown.Glob) (name mac : String) : Result Bool := do
  let named ← patternList glob s.names name
  .ok (named && (s.macs.isEmpty || s.macs.any fun m => sameAddress m mac))

/-! ### Drift -/

def pinBase (name : String) : String := "00-ndimon-" ++ name ++ ".network"

def pinPath (name : String) : String := "/etc/systemd/network/" ++ pinBase name

/-- What is said of a file that takes an interface. -/
def foreignFile (path base : String) (s : Selectors) (name : String) (blocking : Bool) :
    Ifupdown.Drift where
  domain := .network
  path := path
  artifact := some base
  foreign := some path
  selector := "Name=" ++ unwords s.names ++ " MACAddress=" ++ unwords s.macs
  «interface» := name
  neutralized := !blocking
  blocking := blocking

def nameDrift (host : Host) (links : Json) (base path : String) (s : Selectors) (name : String) :
    Result (List Ifupdown.Drift) := do
  let mac ← linkMac links name
  let taken ← s.matches host.glob name mac
  let pin := base = pinBase name ∧ path = pinPath name
  let dropins := effectiveDropins host base
  if !taken || (pin && dropins.isEmpty && !s.unknown) then .ok []
  else
    .ok [foreignFile path base s name
      (base < pinBase name || (pin && (!dropins.isEmpty || s.unknown)))]

def fileDrift (host : Host) (p : NetworkProfiles) (links : Json) (file : String × String) :
    Result (List Ifupdown.Drift) :=
  if host.handoff && host.handoffPaths.contains file.2 then .ok []
  else do
    let text ← effectiveNetworkdIfPresent host file.2
    match text with
    | none => .ok []
    | some text => do
      let entries ← ini text
      let drift ← (names p).mapM (nameDrift host links file.1 file.2 (selectors entries))
      .ok drift.flatten

def networkdDrift (host : Host) (p : NetworkProfiles) : Result (List Ifupdown.Drift) := do
  let links ← host.links
  let drift ← (host.byName roots ".network").entries.mapM (fileDrift host p links)
  .ok drift.flatten

end NdimonR.Backend.Networkd
